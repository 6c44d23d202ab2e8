import Mathlib
import TypeAtlas.Proofs.Syntax.Nesting
import TypeAtlas.Proofs.Syntax.TypeNodes

/-! Reading in pre-order. A file is read into the declarations of its type nodes, one from each and in the order of
their positions, where each has the name, the outer type and the scope that the types around its node give it. -/

namespace TypeAtlas.Syntax

/-! ### Names and scopes -/

/-- The package and the names of some types, given innermost first, joined by dots. -/
def qualifiedNameOf (package : String) (types : List Tree) : String :=
  ".".intercalate ((package :: types.reverse.map (·.nameText)).filter (· ≠ ""))

/-- The qualified names of a type and of those around it, innermost first. -/
def enclosingNames (package : String) : List Tree → List String
  | [] => []
  | t :: around => qualifiedNameOf package (t :: around) :: enclosingNames package around

def Tree.variableNames (t : Tree) : List String :=
  match t.child? "type_parameters" with
  | none => []
  | some list => ((Tree.ofKind .typeParameter list.namedChildren).map (·.parameterName)).filter (· ≠ "")

/-- The type variables that a type sees: its own, and those of the types around it unless it is written static. -/
def variablesInSight : List Tree → List String
  | [] => []
  | t :: around => (if t.modifiers.contains "static" then [] else variablesInSight around) ++ t.variableNames

/-- The declaration of a type node in a file with the given package and imports. -/
structure TypeNode.ReadAs (unit : CompilationUnit) (n : TypeNode) (d : Declaration) : Prop where
  name_eq : d.name = qualifiedNameOf unit.package n.types
  kind_eq : n.node.kind.typeKind?.map .known = some d.kind
  outer_eq : d.outer = if n.around = [] then none else some (qualifiedNameOf unit.package n.around)
  variables_eq : d.typeParameters.map (·.name) = n.node.variableNames
  scope_eq : d.scope = some (.lexical ⟨unit, enclosingNames unit.package n.types, variablesInSight n.types⟩)

theorem intercalate_ne_empty {separator : String} {segments : List String} (ne : segments ≠ [])
    (named : ∀ w ∈ segments, w ≠ "") : separator.intercalate segments ≠ "" := by
  match segments with
  | [w] => simpa using named
  | w :: v :: rest =>
    have first := named w List.mem_cons_self
    rw [String.intercalate_cons_cons]
    simp [first]

theorem qualifiedNameOf_cons {package : String} {t : Tree} {around : List Tree} (named : t.nameText ≠ "") :
    qualifiedNameOf package (t :: around) = Text.qualify (qualifiedNameOf package around) t.nameText := by
  have last : (package :: (t :: around).reverse.map (·.nameText)).filter (· ≠ "") =
      (package :: around.reverse.map (·.nameText)).filter (· ≠ "") ++ [t.nameText] := by
    rw [List.reverse_cons, List.map_append, ← List.cons_append, List.filter_append]
    simp [named]
  unfold qualifiedNameOf
  rw [last]
  generalize segments_eq : (package :: around.reverse.map (·.nameText)).filter (· ≠ "") = segments
  by_cases empty : segments = []
  · rw [empty]
    simp [Text.qualify]
  · have named : ∀ w ∈ segments, w ≠ "" := by
      intro w hw
      rw [← segments_eq] at hw
      simpa using (List.mem_filter.mp hw).2
    rw [Text.qualify, if_neg (intercalate_ne_empty empty named),
      String.intercalate_append_of_ne_nil empty (List.cons_ne_nil _ _), String.intercalate_singleton]

theorem names_of_mapM {path : Option String} {ts : List Tree} {ps : List TypeParameterDecl}
    (h : ts.mapM (Tree.typeParameter path) = .ok ps) : ps.map (·.name) = ts.map (·.parameterName) := by
  induction ts generalizing ps with
  | nil =>
    cases h
    rfl
  | cons t ts ih =>
    rw [List.mapM_cons] at h
    obtain ⟨p, hp, h⟩ := bind_eq_ok.mp h
    obtain ⟨rest, hr, h⟩ := bind_eq_ok.mp h
    obtain ⟨bounds, -, hp⟩ := bind_eq_ok.mp hp
    cases h
    cases hp
    rw [List.map_cons, List.map_cons, ih hr]

theorem names_of_typeParameters {path : Option String} {t : Tree} {ps : List TypeParameterDecl}
    (h : t.typeParameters path = .ok ps) : ps.map (·.name) = t.variableNames := by
  unfold Tree.typeParameters at h
  unfold Tree.variableNames
  cases child : t.child? "type_parameters" with
  | none =>
    rw [child] at h
    cases h
    rfl
  | some list =>
    rw [child] at h
    obtain ⟨all, ha, h⟩ := bind_eq_ok.mp h
    cases h
    dsimp only
    rw [← names_of_mapM ha, List.filter_map]
    rfl

def placeOf (path : Option String) (unit : CompilationUnit) (around : List Tree) (t : Tree) : Place where
  path := path
  unit := unit
  owner := qualifiedNameOf unit.package around
  outer := if around = [] then none else some (qualifiedNameOf unit.package around)
  enclosing := enclosingNames unit.package around
  typeVariables := if t.modifiers.contains "static" then [] else variablesInSight around

theorem placeOf_top (path : Option String) (unit : CompilationUnit) (t : Tree) :
    placeOf path unit [] t = .top path unit unit.package := by
  have owner : qualifiedNameOf unit.package [] = unit.package := by
    by_cases unnamed : unit.package = ""
    · simp [qualifiedNameOf, unnamed]
    · simp [qualifiedNameOf, unnamed]
  simp [placeOf, Place.top, owner, enclosingNames, variablesInSight]

theorem placeOf_scope {path : Option String} {unit : CompilationUnit} {around : List Tree} {t : Tree}
    {ps : List TypeParameterDecl} (named : t.nameText ≠ "") (h : ps.map (·.name) = t.variableNames) :
    (placeOf path unit around t).scope t.nameText ps =
      ⟨unit, enclosingNames unit.package (t :: around), variablesInSight (t :: around)⟩ := by
  rw [Place.scope, enclosingNames, variablesInSight, qualifiedNameOf_cons named, h]
  rfl

/-- The owner of the members of a type, given with the types around it. -/
structure OwnerOf (unit : CompilationUnit) (types : List Tree) (o : Owner) : Prop where
  unit_eq : o.place.unit = unit
  name_eq : o.name = qualifiedNameOf unit.package types
  scope_eq : o.scope = ⟨unit, enclosingNames unit.package types, variablesInSight types⟩

theorem OwnerOf.member_eq {unit : CompilationUnit} {t u : Tree} {around : List Tree} {o : Owner}
    (h : OwnerOf unit (t :: around) o) :
    o.place.member o.name o.scope (u.modifiers.contains "static") = placeOf o.place.path unit (t :: around) u := by
  rw [Place.member, h.unit_eq, h.name_eq, h.scope_eq]
  rfl

section

variable {path : Option String} {unit : CompilationUnit} {around : List Tree} {t : Tree} {kind : TypeKind}
  {d : Declaration} {o : Owner} {s s' : List Warning} {ns ms : List TypeNode} {ds es : List Declaration}
  {m m' : Members}

theorem readAs_of_openType (h : Gives (t.openType (placeOf path unit around t) kind) s (some (d, o)) s')
    (type : t.kind.typeKind? = some kind) (fields : List FieldDecl) (methods : List MethodDecl) (p : List Nat) :
    TypeNode.ReadAs unit ⟨p, t, around⟩ { d with fields := fields, methods := methods } := by
  obtain ⟨named, head, -⟩ := gives_openType h
  have ofHead := headOf_of_declarationHead head
  have own := names_of_typeParameters ofHead.typeParameters
  refine ⟨?_, ?_, ofHead.outer_eq, own, ?_⟩
  · exact ofHead.name_eq.trans (qualifiedNameOf_cons named).symm
  · exact type ▸ congrArg some ofHead.kind_eq.symm
  · exact ofHead.scope_eq.trans (by rw [placeOf_scope named own]; rfl)

theorem ownerOf_of_openType (h : Gives (t.openType (placeOf path unit around t) kind) s (some (d, o)) s') :
    OwnerOf unit (t :: around) o := by
  obtain ⟨named, head, -⟩ := gives_openType h
  have ofHead := headOf_of_declarationHead head
  rw [owner_of_openType h]
  refine ⟨rfl, ?_, ?_⟩
  · exact ofHead.name_eq.trans (qualifiedNameOf_cons named).symm
  · exact placeOf_scope named (names_of_typeParameters ofHead.typeParameters)

/-! ### Reading in pre-order -/

/-- Declarations read from type nodes, one from each. -/
def ReadFrom (unit : CompilationUnit) : List TypeNode → List Declaration → Prop :=
  List.Forall₂ (TypeNode.ReadAs unit)

theorem ReadFrom.numbered (h : ReadFrom unit ns ds) (h' : ReadFrom unit ms es) :
    ReadFrom unit (Syntax.numbered ns ms) (ds ++ es) := by
  -- a declaration does not depend on the position of its node
  refine List.rel_append (List.forall₂_map_left_iff.mpr ?_) (List.forall₂_map_left_iff.mpr ?_)
  · exact h.imp fun _ _ r => ⟨r.name_eq, r.kind_eq, r.outer_eq, r.variables_eq, r.scope_eq⟩
  · exact h'.imp fun _ _ r => ⟨r.name_eq, r.kind_eq, r.outer_eq, r.variables_eq, r.scope_eq⟩

/-- The latter members have in addition the declarations of these type nodes. -/
def AddsTypes (unit : CompilationUnit) (ns : List TypeNode) (m m' : Members) : Prop :=
  ∃ ds, m'.nested = m.nested ++ ds ∧ ReadFrom unit ns ds

theorem AddsTypes.refl (m : Members) : AddsTypes unit [] m m := ⟨[], (List.append_nil _).symm, .nil⟩

theorem AddsTypes.numbered {m₁ m₂ m₃ : Members} (h : AddsTypes unit ns m₁ m₂) (h' : AddsTypes unit ms m₂ m₃) :
    AddsTypes unit (Syntax.numbered ns ms) m₁ m₃ := by
  obtain ⟨ds, eq, reads⟩ := h
  obtain ⟨es, eq', reads'⟩ := h'
  exact ⟨ds ++ es, by rw [eq', eq, List.append_assoc], reads.numbered reads'⟩

theorem addsTypes_of_bind {α : Type} {x : Warned α} {f : α → Members}
    (h : Gives (x >>= fun a => pure (f a)) s m' s') (hf : ∀ a, (f a).nested = m.nested) : AddsTypes unit [] m m' :=
  ⟨[], nested_of_bind h hf, .nil⟩

/-- A type that is closed is read from its node, and what was read in its body from the nodes there. -/
theorem readFrom_close (h : Gives (t.openType (placeOf path unit around t) kind) s (some (d, o)) s')
    (type : t.kind.typeKind? = some kind) (body : AddsTypes unit ns { fields := d.fields } m) :
    ReadFrom unit (⟨[], t, around⟩ :: ns) (m.close d) := by
  obtain ⟨ds, nested, reads⟩ := body
  refine .cons (readAs_of_openType h type _ _ _) ?_
  rw [nested]
  exact reads

namespace Tree

mutual

theorem readBody_addsTypes {o : Owner} {t : Tree} {around : List Tree} (h : OwnerOf unit (t :: around) o)
    (m : Members) : (ts : List Tree) → {s s' : List Warning} → {m' : Members} → Gives (readBody o m ts) s m' s' →
      AddsTypes unit (bodyTypes (t :: around) ts) m m'
  | [], s, s', m', run => by
    rw [readBody, gives_pure] at run
    exact run.1 ▸ .refl _
  | u :: ts, s, s', m', run => by
    rw [readBody] at run
    rw [bodyTypes]
    split at run
    · rename_i body
      rw [if_pos body]
      exact (readInside_addsTypes h m u run).numbered (.refl m')
    · rename_i other
      rw [if_neg other]
      exact (AddsTypes.refl m).numbered (readBody_addsTypes h m ts run)

theorem readInside_addsTypes {o : Owner} {t : Tree} {around : List Tree} (h : OwnerOf unit (t :: around) o)
    (m : Members) : (u : Tree) → {s s' : List Warning} → {m' : Members} → Gives (readInside o m u) s m' s' →
      AddsTypes unit (insideTypes (t :: around) u) m m'
  | ⟨_, _, _, _, _, children⟩, _, _, _, run => readMembers_addsTypes h m children run

theorem readMembers_addsTypes {o : Owner} {t : Tree} {around : List Tree} (h : OwnerOf unit (t :: around) o)
    (m : Members) : (ts : List Tree) → {s s' : List Warning} → {m' : Members} → Gives (readMembers o m ts) s m' s' →
      AddsTypes unit (memberTypes (t :: around) ts) m m'
  | [], s, s', m', run => by
    rw [readMembers, gives_pure] at run
    exact run.1 ▸ .refl _
  | u :: ts, s, s', m', run => by
    rw [readMembers] at run
    rw [memberTypes]
    obtain ⟨m₁, s₁, h₁, h₂⟩ := gives_bind.mp run
    exact (readMember_addsTypes h m u h₁).numbered (readMembers_addsTypes h m₁ ts h₂)

theorem readMember_addsTypes {o : Owner} {t : Tree} {around : List Tree} (h : OwnerOf unit (t :: around) o)
    (m : Members) : (u : Tree) → {s s' : List Warning} → {m' : Members} → Gives (readMember o m u) s m' s' →
      AddsTypes unit (typesAt (t :: around) u) m m'
  | ⟨kind, isNamed, field, text, line, children⟩, s, s', m', run => by
    unfold readMember at run
    rw [typesAt]
    dsimp only at run ⊢
    split at run
    · rename_i unnamed
      rw [if_pos unnamed]
      exact (gives_pure.mp run).1 ▸ .refl _
    · rename_i named
      rw [if_neg named]
      split at run
      · exact (gives_pure.mp run).1 ▸ .refl _
      · exact readMembers_addsTypes h m children run
      -- fields, methods and constructors
      · exact addsTypes_of_bind run fun _ => rfl
      · exact addsTypes_of_bind run fun _ => rfl
      · exact addsTypes_of_bind run fun _ => rfl
      · exact addsTypes_of_bind run fun _ => rfl
      · exact addsTypes_of_bind run fun _ => rfl
      · exact addsTypes_of_bind run fun _ => rfl
      · rename_i other _ _ _ _ _ _
        rw [if_neg other]
        split at run
        · rename_i type
          rw [if_neg (by simp [DeclaresType, type])]
          exact (gives_pure.mp run).1 ▸ .refl _
        · rename_i typeKind type
          rw [h.member_eq] at run
          obtain ⟨opened, s₁, ho, run⟩ := gives_bind.mp run
          cases opened with
          | none =>
            rw [if_neg (by simp [DeclaresType, nameless_of_openType ho])]
            exact (gives_pure.mp run).1 ▸ .refl _
          | some opened =>
            obtain ⟨d, inner⟩ := opened
            obtain ⟨body, s₂, hb, run⟩ := gives_bind.mp run
            obtain ⟨rfl, -⟩ := gives_pure.mp run
            rw [if_pos ⟨by simp [type], (gives_openType ho).1⟩]
            have adds := readBody_addsTypes (ownerOf_of_openType ho) { fields := d.fields } children hb
            exact ⟨body.close d, rfl, readFrom_close ho type adds⟩

end

theorem readFrom_of_readType (h : Gives (t.readType (placeOf path unit around t) kind) s ds s')
    (type : t.kind.typeKind? = some kind) : ReadFrom unit (t.typesFrom around) ds := by
  unfold readType at h
  unfold typesFrom
  obtain ⟨opened, s₁, ho, h⟩ := gives_bind.mp h
  cases opened with
  | none =>
    obtain ⟨rfl, -⟩ := gives_pure.mp h
    rw [if_neg (by simp [DeclaresType, nameless_of_openType ho])]
    exact .nil
  | some opened =>
    obtain ⟨d, inner⟩ := opened
    obtain ⟨body, s₂, hb, h⟩ := gives_bind.mp h
    obtain ⟨rfl, -⟩ := gives_pure.mp h
    rw [if_pos ⟨by simp [type], (gives_openType ho).1⟩]
    exact readFrom_close ho type (readBody_addsTypes (ownerOf_of_openType ho) { fields := d.fields } t.children hb)

end Tree

theorem package_addHeader (u : CompilationUnit) (kind : t.kind ≠ .packageDeclaration) :
    (addHeader u t).package = u.package := by
  unfold addHeader
  split
  · contradiction
  · split
    · rfl
    · dsimp only
      split
      · rfl
      · split <;> rfl
  · rfl

theorem package_foldl {ts : List Tree} (none : ∀ t ∈ ts, t.kind ≠ .packageDeclaration) (u : CompilationUnit) :
    (ts.foldl addHeader u).package = u.package := by
  induction ts generalizing u with
  | nil => rfl
  | cons t ts ih =>
    rw [List.foldl_cons, ih fun t ht => none t (List.mem_cons_of_mem _ ht)]
    exact package_addHeader u (none t List.mem_cons_self)

/-- No package is declared after a type. -/
def PackageFirst (ts : List Tree) : Prop :=
  ts.Pairwise fun t u => t.kind.typeKind?.isSome → u.kind ≠ .packageDeclaration

/-- The package declared so far is that of the file as soon as a type comes. -/
theorem readFrom_of_readTop {ts : List Tree} : ∀ {u : CompilationUnit} {s s' : List Warning} {ds : List Declaration},
    PackageFirst (ts.filter (·.isNamed)) → ((ts.filter (·.isNamed)).foldl addHeader u).package = unit.package →
      Gives (readTop path unit u.package (ts.filter (·.isNamed))) s ds s' → ReadFrom unit (topTypes ts) ds := by
  induction ts with
  | nil =>
    intro u s s' ds _ _ h
    rw [List.filter_nil, readTop, gives_pure] at h
    exact h.1 ▸ .nil
  | cons t ts ih =>
    intro u s s' ds first package h
    rw [topTypes]
    by_cases named : t.isNamed = true
    · rw [List.filter_cons_of_pos named] at first package h
      obtain ⟨after, first⟩ := List.pairwise_cons.mp first
      rw [if_pos named]
      unfold readTop at h
      rw [List.foldl_cons] at package
      have skip (kind : t.kind.typeKind? = none) {s₁ : List Warning} {package' : String}
          (same : package' = (addHeader u t).package)
          (h : Gives (readTop path unit package' (ts.filter (·.isNamed))) s₁ ds s') :
          ReadFrom unit (numbered (t.typesFrom []) (topTypes ts)) ds := by
        have none : t.typesFrom [] = [] := if_neg (by simp [Tree.DeclaresType, kind])
        rw [none]
        exact ReadFrom.numbered .nil (ih first package (same ▸ h))
      split at h
      · rename_i kind
        exact skip (by simp [kind, NodeKind.typeKind?]) (by simp [addHeader, kind]) h
      · rename_i kind
        have same := (package_addHeader u (t := t) (by simp [kind])).symm
        dsimp only at h
        split at h
        · obtain ⟨_, s₁, -, h⟩ := gives_bind.mp h
          exact skip (by simp [kind, NodeKind.typeKind?]) same h
        · exact skip (by simp [kind, NodeKind.typeKind?]) same h
      · rename_i other _
        have same := package_addHeader u other
        split at h
        · rename_i kind
          exact skip kind same.symm h
        · rename_i typeKind kind
          obtain ⟨first', s₁, hf, h⟩ := gives_bind.mp h
          obtain ⟨rest, s₂, hr, h⟩ := gives_bind.mp h
          obtain ⟨rfl, -⟩ := gives_pure.mp h
          have settled : u.package = unit.package := by
            rw [← package, package_foldl (fun v hv => after v hv (by simp [kind])), same]
          rw [settled, ← placeOf_top] at hf
          exact (Tree.readFrom_of_readType hf kind).numbered (ih first package (same.symm ▸ hr))
    · rw [List.filter_cons_of_neg named] at first package h
      rw [if_neg named]
      exact ReadFrom.numbered .nil (ih first package h)

theorem readFrom_of_read {f : ParsedFile} (first : PackageFirst f.root.namedChildren)
    (h : Gives (f.read path) s ds s') : ReadFrom (unitOf f.root) (topTypes f.root.children) ds := by
  unfold ParsedFile.read at h
  dsimp only at h
  split at h
  · obtain ⟨_, s₁, -, h⟩ := gives_bind.mp h
    exact readFrom_of_readTop (u := {}) first rfl h
  · exact readFrom_of_readTop (u := {}) first rfl h

end

/-- A file is read in pre-order: there is one declaration for each type node, in ascending order of positions, and
none besides. It has the name, the outer type and the scope that the types around its node give it. -/
theorem read_preorder {f : ParsedFile} {path : Option String} {s s' : List Warning} {ds : List Declaration}
    (first : f.root.namedChildren.Pairwise fun t u => t.kind.typeKind?.isSome → u.kind ≠ .packageDeclaration)
    (h : Gives (f.read path) s ds s') :
    ∃ ns : List TypeNode, ns.Pairwise (fun m n => m.position < n.position) ∧ (∀ n, n ∈ ns ↔ f.Declares n) ∧
      List.Forall₂ (TypeNode.ReadAs (unitOf f.root)) ns ds :=
  ⟨topTypes f.root.children, ascending_topTypes _, fun _ => f.mem_types, readFrom_of_read first h⟩

def plainType (kind : NodeKind) (name : String) (parameters : List String) (body : List Tree) : Tree :=
  ⟨kind, true, none, "", 1, [
    ⟨.identifier, true, some "name", name, 1, []⟩,
    ⟨.other "type_parameters", true, some "type_parameters", "", 1, parameters.map fun v =>
      ⟨.typeParameter, true, none, v, 1, [⟨.typeIdentifier, true, none, v, 1, []⟩]⟩⟩,
    ⟨.other "class_body", true, some "body", "", 1, body⟩]⟩

/-- `package p; class Outer<T> { enum Kind { ; class Deep<U> {} } class {} interface Last {} }` -/
def nestedFile : ParsedFile where
  root := ⟨.other "program", true, none, "", 1, [
    ⟨.packageDeclaration, true, none, "", 1, [⟨.identifier, true, none, "p", 1, []⟩]⟩,
    plainType .classDeclaration "Outer" ["T"] [
      plainType .enumDeclaration "Kind" [] [
        ⟨.enumBodyDeclarations, true, none, "", 1, [plainType .classDeclaration "Deep" ["U"] []]⟩],
      plainType .classDeclaration "" [] [],
      plainType .interfaceDeclaration "Last" [] []]]⟩

theorem read_preorder_nested : ∃ ds s' ns, Gives (nestedFile.read none) [] ds s' ∧
    ds.map (·.name) = ["p.Outer", "p.Outer.Kind", "p.Outer.Kind.Deep", "p.Outer.Last"] ∧
    (∀ n, n ∈ ns ↔ nestedFile.Declares n) ∧ List.Forall₂ (TypeNode.ReadAs (unitOf nestedFile.root)) ns ds := by
  have names : ((nestedFile.read none).run.run []).run.1.toOption.map (·.map (·.name)) =
      some ["p.Outer", "p.Outer.Kind", "p.Outer.Kind.Deep", "p.Outer.Last"] := by cbv
  rcases gives_or_fails (nestedFile.read none) [] with ⟨ds, s', h⟩ | ⟨e, s', h⟩
  · obtain ⟨ns, -, nodes, reads⟩ := read_preorder (by decide) h
    unfold Gives at h
    rw [h] at names
    exact ⟨ds, s', ns, h, Option.some.inj names, nodes, reads⟩
  · unfold Fails at h
    rw [h] at names
    cases names

end TypeAtlas.Syntax
