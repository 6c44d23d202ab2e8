import TypeAtlas.Proofs.Syntax.Bodies

/-! Scopes of types that stand in others. A type sees what the type around it sees: its scope has one more enclosing
type, and no type variables but its own and those of the scope around it. So a name that it does not take for itself
means what it means outside. -/

namespace TypeAtlas

open Syntax

namespace Declaration

/-- The scope of a declaration that stands directly in another scope. -/
structure ScopedUnder (outer : LexicalScope) (d : Declaration) (s : LexicalScope) : Prop where
  scope_eq : d.scope = some (.lexical s)
  unit_eq : s.unit = outer.unit
  enclosing_eq : s.enclosing = d.name :: outer.enclosing
  variables_subset : ∀ v ∈ s.typeVariables, v ∈ outer.typeVariables ∨ v ∈ d.typeParameters.map (·.name)

/-- A simple name that a type does not take for itself: it is none of its type parameters, not its own name and no
member type of it, neither a declared one nor, if these count, an inherited one. -/
structure Passes (ix : Index) (inherits : Bool) (name : String) (d : Declaration) : Prop where
  parameter : name ∉ d.typeParameters.map (·.name)
  itself : d.simpleName ≠ name
  declared : ix.knows (d.name ++ "." ++ name) = false
  inherited : inherits = true → inheritedMember ix d.name name = .ok none

end Declaration

/-- Declarations, innermost first, each of which stands directly in the scope of the next and the last one in the
scope `outer`; the first has the scope that comes last. -/
inductive ScopedWithin (outer : LexicalScope) : List Declaration → LexicalScope → Prop
  | nil : ScopedWithin outer [] outer
  | cons {d : Declaration} {around : List Declaration} {s s' : LexicalScope} (rest : ScopedWithin outer around s)
      (under : d.ScopedUnder s s') : ScopedWithin outer (d :: around) s'

namespace ScopedWithin

variable {outer s : LexicalScope} {ds es : List Declaration}

theorem append_iff : ScopedWithin outer (ds ++ es) s ↔ ∃ s₁, ScopedWithin outer es s₁ ∧ ScopedWithin s₁ ds s := by
  induction ds generalizing s with
  | nil =>
    constructor
    · exact fun h => ⟨s, h, .nil⟩
    · rintro ⟨s₁, h, ⟨⟩⟩
      exact h
  | cons d ds ih =>
    constructor
    · rintro (_ | ⟨rest, under⟩)
      obtain ⟨s₁, h, h'⟩ := ih.mp rest
      exact ⟨s₁, h, .cons h' under⟩
    · rintro ⟨s₁, h, _ | ⟨rest, under⟩⟩
      exact .cons (ih.mpr ⟨s₁, h, rest⟩) under

theorem scope_eq {d : Declaration} (h : ScopedWithin outer (d :: ds) s) : d.scope = some (.lexical s) := by
  obtain _ | ⟨-, under⟩ := h
  exact under.scope_eq

end ScopedWithin

/-! ### What a name means further inside -/

section

variable {ix : Index} {inherits : Bool} {name r : String} {outer s : LexicalScope} {d : Declaration}

abbrev Inheritance.counted (ix : Index) (inherits : Bool) : Inheritance :=
  if inherits then inheritedMember ix else Inheritance.none

theorem Declaration.Passes.counted_eq (passes : d.Passes ix inherits name) :
    Inheritance.counted ix inherits d.name name = .ok none := by
  unfold Inheritance.counted
  split
  · rename_i inherits
    exact passes.inherited inherits
  · rfl

/-- One type further inside, the name means the same. -/
theorem Declaration.ScopedUnder.resolveSimple_eq (under : d.ScopedUnder outer s) (passes : d.Passes ix inherits name)
    (h : outer.resolveSimple ix (Inheritance.counted ix inherits) name = .ok (some r)) :
    s.resolveSimple ix (Inheritance.counted ix inherits) name = .ok (some r) := by
  have notOuter : name ∉ outer.typeVariables := by
    intro hv
    rw [LexicalScope.resolveSimple, if_pos hv] at h
    cases h
  have notInner : name ∉ s.typeVariables :=
    fun hv => (under.variables_subset name hv).elim notOuter passes.parameter
  have other : (Text.simpleName d.name == name) = false := beq_false_of_ne passes.itself
  have members : memberOfFirst ix (Inheritance.counted ix inherits) name (d.name :: outer.enclosing) =
      memberOfFirst ix (Inheritance.counted ix inherits) name outer.enclosing := by
    rw [memberOfFirst, passes.declared, if_neg Bool.false_ne_true, passes.counted_eq]
    rfl
  rw [LexicalScope.resolveSimple, if_neg notOuter] at h
  rw [LexicalScope.resolveSimple, if_neg notInner, under.enclosing_eq, under.unit_eq, List.find?_cons, other, members]
  exact h

/-- Any number of types further inside, the name means the same. -/
theorem ScopedWithin.resolveSimple_eq {ds : List Declaration} (h : ScopedWithin outer ds s)
    (passes : ∀ d ∈ ds, d.Passes ix inherits name)
    (found : outer.resolveSimple ix (Inheritance.counted ix inherits) name = .ok (some r)) :
    s.resolveSimple ix (Inheritance.counted ix inherits) name = .ok (some r) := by
  induction h with
  | nil => exact found
  | cons _ under ih =>
    have further := ih fun e he => passes e (List.mem_cons_of_mem _ he)
    exact under.resolveSimple_eq (passes _ List.mem_cons_self) further

/-- A written name without dots is looked up without its type arguments. -/
theorem LexicalScope.resolve_simple {w : String} (plain : '.' ∉ (Text.erase w).toList) :
    (Scope.lexical s).resolve ix w inherits = if isNameless (Text.erase w) then .ok none
      else s.resolveSimple ix (Inheritance.counted ix inherits) (Text.erase w) := by
  rw [Scope.resolve, Scope.resolveWith, LexicalScope.resolveWith, LexicalScope.resolveErased,
    Text.afterHead?_of_dot_not_mem plain]

theorem ScopedWithin.resolve_eq {ds : List Declaration} {w : String} (h : ScopedWithin outer ds s)
    (plain : '.' ∉ (Text.erase w).toList) (passes : ∀ d ∈ ds, d.Passes ix inherits (Text.erase w))
    (found : (Scope.lexical outer).resolve ix w inherits = .ok (some r)) :
    (Scope.lexical s).resolve ix w inherits = .ok (some r) := by
  rw [LexicalScope.resolve_simple plain] at found ⊢
  split at found
  · cases found
  · rename_i named
    rw [if_neg named]
    exact h.resolveSimple_eq passes found

end

/-! ### The scopes of a file -/

namespace Forest

variable {α β : Type} {f g : Forest α} {as : List α}

/-- A type of a forest and the types around it, innermost first. -/
inductive Stands : Forest α → List α → Prop
  | root (a : α) (members rest : Forest α) : Stands (cons a members rest) [a]
  | inside (a : α) {members : Forest α} (rest : Forest α) {as : List α} (h : Stands members as) :
      Stands (cons a members rest) (as ++ [a])
  | later (a : α) (members : Forest α) {rest : Forest α} {as : List α} (h : Stands rest as) :
      Stands (cons a members rest) as

theorem Stands.mem_types (h : Stands f as) : ∀ a ∈ as, a ∈ f.types := by
  induction h with
  | root => simp [types]
  | inside a rest _ ih =>
    intro b hb
    rcases List.mem_append.mp hb with hb | hb
    · exact List.mem_cons_of_mem _ (List.mem_append_left _ (ih b hb))
    · exact List.mem_singleton.mp hb ▸ List.mem_cons_self
  | later a members _ ih => exact fun b hb => List.mem_cons_of_mem _ (List.mem_append_right _ (ih b hb))

theorem exists_stands_of_map {h : α → β} {bs : List β} (stands : Stands (f.map h) bs) :
    ∃ as, Stands f as ∧ as.map h = bs := by
  induction f generalizing bs with
  | nil => cases stands
  | cons a members rest ihm ihr =>
    cases stands with
    | root => exact ⟨[a], .root a members rest, rfl⟩
    | inside _ _ stands =>
      obtain ⟨as, inside, rfl⟩ := ihm stands
      exact ⟨as ++ [a], .inside a rest inside, List.map_append⟩
    | later _ _ stands =>
      obtain ⟨as, later, rfl⟩ := ihr stands
      exact ⟨as, .later a members later, rfl⟩

/-- Each declaration stands directly in the scope of that around it, and those that stand in no other in `outer`. -/
def Scoped : LexicalScope → Forest Declaration → Prop
  | _, nil => True
  | outer, cons d members rest => (∃ s, d.ScopedUnder outer s ∧ members.Scoped s) ∧ rest.Scoped outer

variable {outer : LexicalScope} {ds es : Forest Declaration}

theorem Scoped.append (h : ds.Scoped outer) (h' : es.Scoped outer) : (ds.append es).Scoped outer := by
  induction ds with
  | nil => exact h'
  | cons d members rest _ ih => exact ⟨h.1, ih h.2⟩

theorem Scoped.scopedWithin (h : ds.Scoped outer) {types : List Declaration} (stands : Stands ds types) :
    ∃ s, ScopedWithin outer types s := by
  induction stands generalizing outer with
  | root a members rest =>
    obtain ⟨⟨s, under, -⟩, -⟩ := h
    exact ⟨s, .cons .nil under⟩
  | inside a rest _ ih =>
    obtain ⟨⟨s, under, inside⟩, -⟩ := h
    obtain ⟨s', within⟩ := ih inside
    exact ⟨s', ScopedWithin.append_iff.mpr ⟨s, .cons .nil under, within⟩⟩
  | later a members _ ih => exact ih h.2

end Forest

namespace Syntax

variable {path : Option String} {unit : CompilationUnit} {o : Owner} {m m' : Members} {t : Tree} {ts : List Tree}
  {d : Declaration} {ds es : List Declaration} {names names' : Forest String} {outer : LexicalScope}

/-- Declarations of types with these names, nested as these and each scoped in that around it. -/
def ScopedOutline (outer : LexicalScope) (names : Forest String) (ds : List Declaration) : Prop :=
  ∃ f : Forest Declaration, f.map (·.name) = names ∧ f.types = ds ∧ f.Scoped outer

namespace ScopedOutline

theorem nil (outer : LexicalScope) : ScopedOutline outer .nil [] := ⟨.nil, rfl, rfl, trivial⟩

theorem append (h : ScopedOutline outer names ds) (h' : ScopedOutline outer names' es) :
    ScopedOutline outer (names.append names') (ds ++ es) := by
  obtain ⟨f, rfl, rfl, inScope⟩ := h
  obtain ⟨g, rfl, rfl, inScope'⟩ := h'
  exact ⟨f.append g, Forest.map_append _, Forest.types_append, inScope.append inScope'⟩

theorem close {s : LexicalScope} (under : d.ScopedUnder outer s) (h : ScopedOutline s names m.nested) :
    ScopedOutline outer (.cons d.name names .nil) (m.close d) := by
  obtain ⟨f, rfl, types, inScope⟩ := h
  refine ⟨.cons { d with fields := m.fields, methods := m.methods } f .nil, rfl, ?_, ⟨s, ?_, inScope⟩, trivial⟩
  · rw [Forest.types, types, Forest.types, List.append_nil]
    rfl
  · exact ⟨under.scope_eq, under.unit_eq, under.enclosing_eq, under.variables_subset⟩

end ScopedOutline

/-- What a type declares is named after its place and stands in the scope that the place continues. -/
theorem Tree.Begins.scopedUnder {p : Place} (h : t.Begins p d o) (unit_eq : p.unit = outer.unit)
    (enclosing_eq : p.enclosing = outer.enclosing) (sub : ∀ v ∈ p.typeVariables, v ∈ outer.typeVariables) :
    t.nameText ≠ "" ∧ d.name = Text.qualify p.owner t.nameText ∧ o.name = d.name ∧ o.scope.unit = o.place.unit ∧
      d.ScopedUnder outer o.scope := by
  obtain ⟨named, type, head⟩ := h
  have ofHead := headOf_of_declarationHead head
  refine ⟨named, ofHead.name_eq, rfl, rfl, ofHead.scope_eq, unit_eq, ?_, fun v hv => ?_⟩
  · rw [ofHead.name_eq, ← enclosing_eq]
    rfl
  · exact (List.mem_append.mp hv).imp (sub v) id

/-- What members of the given owner have in addition to others are declarations of these types. -/
def OutlinedInside (o : Owner) (names : Forest String) (m m' : Members) : Prop :=
  o.scope.unit = o.place.unit → ∃ ds, m'.nested = m.nested ++ ds ∧ ScopedOutline o.scope names ds

namespace Tree

theorem outlineBody_eq (owner : String) (ts : List Tree) :
    outlineBody owner ts = outlineMembers owner (bodyChildren ts) := by
  induction ts with
  | nil => rw [outlineBody, bodyChildren, outlineMembers]
  | cons t ts ih =>
    obtain ⟨_, _, _, _, _, children⟩ := t
    rw [outlineBody, bodyChildren, outlineInside, ih]
    split <;> rfl

theorem outlineMember_of_plain (owner : String) (plain : t.isNamed → t.Plain) : t.outlineMember owner = .nil := by
  obtain ⟨kind, isNamed, field, text, line, children⟩ := t
  rw [outlineMember]
  split
  · rfl
  · rename_i named
    obtain ⟨constants, type⟩ := plain (by simpa using named)
    rw [if_neg constants, if_pos]
    simpa [DeclaresType, Option.isNone_iff_eq_none, or_iff_not_imp_left, Option.isSome_iff_ne_none] using type

theorem outlineMember_of_constants (owner : String) (named : t.isNamed) (kind : t.kind = .enumBodyDeclarations) :
    t.outlineMember owner = outlineMembers owner t.children := by
  obtain ⟨_, _, field, text, line, children⟩ := t
  rw [outlineMember, if_neg (by simpa using named), if_pos kind]

theorem outlineMember_of_declares (owner : String) (named : t.isNamed) (type : t.DeclaresType) :
    t.outlineMember owner = t.outlineType owner := by
  have kind : t.kind ≠ .enumBodyDeclarations := fun kind => not_declaresType kind type
  obtain ⟨isType, name⟩ := type
  obtain ⟨_, _, field, text, line, children⟩ := t
  rw [outlineMember, if_neg (by simpa using named), if_neg kind, if_neg, outlineType, if_neg name]
  simpa [name, Option.isSome_iff_ne_none] using isType

end Tree

/-- A type with those in its body, by the outline of its body. -/
theorem scopedOutline_close {p : Place} (begins : t.Begins p d o) (unit_eq : p.unit = outer.unit)
    (enclosing_eq : p.enclosing = outer.enclosing) (sub : ∀ v ∈ p.typeVariables, v ∈ outer.typeVariables)
    (inside : OutlinedInside o (Tree.outlineMembers o.name (Tree.bodyChildren t.children)) { fields := d.fields } m) :
    ScopedOutline outer (t.outlineType p.owner) (m.close d) := by
  obtain ⟨named, name, owner, scopeUnit, under⟩ := begins.scopedUnder unit_eq enclosing_eq sub
  obtain ⟨ds, eq, outlined⟩ := inside scopeUnit
  rw [Tree.outlineType, if_neg named, Tree.outlineBody_eq, ← name]
  refine .close under ?_
  rw [eq, ← owner]
  exact outlined

theorem Collects.outlined (h : Collects o m ts m') : OutlinedInside o (Tree.outlineMembers o.name ts) m m' := by
  induction h with
  | done o m =>
    intro _
    rw [Tree.outlineMembers]
    exact ⟨[], (List.append_nil _).symm, .nil _⟩
  | plain plain _ _ _ ih =>
    intro unit_eq
    rw [Tree.outlineMembers, Tree.outlineMember_of_plain _ plain]
    exact ih unit_eq
  | constants named kind _ _ inside rest =>
    intro unit_eq
    obtain ⟨ds, eq, outlined⟩ := inside unit_eq
    obtain ⟨es, eq', outlined'⟩ := rest unit_eq
    rw [Tree.outlineMembers, Tree.outlineMember_of_constants _ named kind]
    exact ⟨ds ++ es, by rw [eq', eq, List.append_assoc], outlined.append outlined'⟩
  | @type o inner _ body _ t _ d named begins _ _ inside rest =>
    intro unit_eq
    obtain ⟨es, eq, outlined⟩ := rest unit_eq
    rw [Tree.outlineMembers, Tree.outlineMember_of_declares _ named begins.declaresType]
    refine ⟨body.close d ++ es, by rw [eq, List.append_assoc], .append ?_ outlined⟩
    -- a static member type sees no type variables of the scope that it continues
    refine scopedOutline_close begins unit_eq.symm rfl (fun v hv => ?_) inside
    rw [Place.member] at hv
    split at hv
    · cases hv
    · exact hv

theorem CollectsTop.outlined {package : String} (h : CollectsTop path unit package ts ds) :
    ScopedOutline ⟨unit, [], []⟩ (outlineTop package (ts.filter (·.isNamed))) ds := by
  induction h with
  | done package => exact .nil _
  | package named kind _ ih =>
    rw [List.filter_cons_of_pos named, outlineTop, if_pos kind]
    exact ih
  | @other _ t _ _ other _ ih =>
    by_cases named : t.isNamed = true
    · obtain ⟨package, type⟩ := other named
      rw [List.filter_cons_of_pos named, outlineTop, if_neg package]
      split
      · rename_i isType
        have nameless : t.nameText = "" := by simpa [Tree.DeclaresType, isType] using type
        rw [Tree.outlineType, if_pos nameless]
        exact ih
      · exact ih
    · rw [List.filter_cons_of_neg named]
      exact ih
  | @type _ t _ _ _ _ _ named begins collected _ ih =>
    obtain ⟨isType, -⟩ := begins.declaresType
    have package : t.kind ≠ .packageDeclaration := by
      intro kind
      simp [kind, NodeKind.typeKind?] at isType
    rw [List.filter_cons_of_pos named, outlineTop, if_neg package, if_pos isType]
    exact .append (scopedOutline_close begins rfl rfl nofun collected.outlined) ih

end Syntax

/-- Names mean the same inside as outside. A reading gives the types of the file nested as these are, and for every
type at any depth inside another one, whatever simple name the outer scope resolves the inner scope resolves to the
same, if neither the inner type nor one between the two takes the name for itself. -/
theorem resolve_nested {f : ParsedFile} {path : Option String} {ds : List Declaration} {s s' : List Warning}
    (h : Gives (f.read path) s ds s') :
    ∃ F : Forest Declaration, F.map (·.name) = f.outline ∧ F.types = ds ∧
      ∀ (i : Declaration) (between : List Declaration) (o : Declaration) (around : List Declaration),
        F.Stands (i :: between ++ o :: around) → ∃ so si, o.scope = some (.lexical so) ∧ i.scope = some (.lexical si) ∧
          ∀ (ix : Index) (inherits : Bool) (w r : String), '.' ∉ (Text.erase w).toList →
            (Scope.lexical so).resolve ix w inherits = .ok (some r) →
            (∀ e ∈ i :: between, e.Passes ix inherits (Text.erase w)) →
            (Scope.lexical si).resolve ix w inherits = .ok (some r) := by
  obtain ⟨F, names, types, inScope⟩ := (collectsTop_of_read h).outlined
  refine ⟨F, names, types, fun i between o around stands => ?_⟩
  obtain ⟨si, within⟩ := inScope.scopedWithin stands
  obtain ⟨so, outside, inside⟩ := ScopedWithin.append_iff.mp within
  exact ⟨so, si, outside.scope_eq, inside.scope_eq, fun ix inherits w r plain found passes =>
    inside.resolve_eq plain passes found⟩

/-- `package p; class O<T> { class X {} static class M<U> { class I {} } }` -/
def staticFile : Syntax.ParsedFile where
  root :=
    let inner := Syntax.plainType .classDeclaration "M" ["U"] [Syntax.plainType .classDeclaration "I" [] []]
    let modifiers : Tree := ⟨.modifiers, true, none, "static", 1, [⟨.staticKeyword, false, none, "static", 1, []⟩]⟩
    ⟨.other "program", true, none, "", 1, [
      ⟨.packageDeclaration, true, none, "", 1, [⟨.identifier, true, none, "p", 1, []⟩]⟩,
      Syntax.plainType .classDeclaration "O" ["T"] [
        Syntax.plainType .classDeclaration "X" [] [], { inner with children := modifiers :: inner.children }]]⟩

def staticFileClass (name : String) (modifiers : List String) (parameters : List String) (enclosing : List String)
    (typeVariables : List String) : Declaration where
  name := name
  modifiers := modifiers
  typeParameters := parameters.map fun v => ⟨v, []⟩
  outer := enclosing.head?
  scope := some (.lexical ⟨{ package := "p" }, name :: enclosing, typeVariables⟩)

def staticFileTypes : List Declaration :=
  [staticFileClass "p.O" [] ["T"] [] ["T"], staticFileClass "p.O.X" [] [] ["p.O"] ["T"],
    staticFileClass "p.O.M" ["static"] ["U"] ["p.O"] ["U"], staticFileClass "p.O.M.I" [] [] ["p.O.M", "p.O"] ["U"]]

theorem read_staticFile : Gives (staticFile.read none) [] staticFileTypes [] := by cbv

/-- `X` means in the class `I` what it means in `O`, though the static class between the two does not see `T`. -/
theorem resolve_nested_static : ∃ ds s', Gives (staticFile.read none) [] ds s' ∧ ∃ i ∈ ds, i.name = "p.O.M.I" ∧
    ∃ si, i.scope = some (.lexical si) ∧ "T" ∉ si.typeVariables ∧
      (Scope.lexical si).resolve (Index.ofList ds) "X" true = .ok (some "p.O.X") := by
  obtain ⟨F, names, types, inside⟩ := resolve_nested read_staticFile
  have outline : staticFile.outline =
      .cons "p.O" (.cons "p.O.X" .nil (.cons "p.O.M" (.cons "p.O.M.I" .nil .nil) .nil)) .nil := by cbv
  have path : (F.map (·.name)).Stands ["p.O.M.I", "p.O.M", "p.O"] := by
    rw [names, outline]
    exact .inside "p.O" .nil (.later "p.O.X" .nil (.inside "p.O.M" .nil (.root "p.O.M.I" .nil .nil)))
  obtain ⟨as, stands, eq⟩ := Forest.exists_stands_of_map path
  obtain ⟨i, as, rfl, hi, eq⟩ := List.map_eq_cons_iff.mp eq
  obtain ⟨m, as, rfl, hm, eq⟩ := List.map_eq_cons_iff.mp eq
  obtain ⟨o, as, rfl, ho, eq⟩ := List.map_eq_cons_iff.mp eq
  obtain rfl := List.map_eq_nil_iff.mp eq
  have known : ∀ e ∈ [i, m, o], e ∈ staticFileTypes := types ▸ stands.mem_types
  have byName := List.inj_on_of_nodup_map (f := Declaration.name) (l := staticFileTypes) (by decide)
  obtain rfl : i = staticFileClass "p.O.M.I" [] [] ["p.O.M", "p.O"] ["U"] :=
    byName (known i (by simp)) (by simp [staticFileTypes]) hi
  obtain rfl : m = staticFileClass "p.O.M" ["static"] ["U"] ["p.O"] ["U"] :=
    byName (known m (by simp)) (by simp [staticFileTypes]) hm
  obtain rfl : o = staticFileClass "p.O" [] ["T"] [] ["T"] :=
    byName (known o (by simp)) (by simp [staticFileTypes]) ho
  obtain ⟨so, si, outer, inner, means⟩ := inside _ [_] _ [] stands
  cases outer
  cases inner
  have erased : Text.erase "X" = "X" := by cbv
  have passes : ∀ e ∈ [staticFileClass "p.O.M.I" [] [] ["p.O.M", "p.O"] ["U"],
      staticFileClass "p.O.M" ["static"] ["U"] ["p.O"] ["U"]], e.Passes (Index.ofList staticFileTypes) true "X" := by
    intro e he
    rcases List.mem_pair.mp he with rfl | rfl
    · exact ⟨by decide, by decide, by cbv, fun _ => by cbv⟩
    · exact ⟨by decide, by decide, by cbv, fun _ => by cbv⟩
  refine ⟨_, _, read_staticFile, _, known _ List.mem_cons_self, rfl, _, rfl, by decide, ?_⟩
  exact means _ true "X" "p.O.X" (by rw [erased]; decide) (by cbv) (by rw [erased]; exact passes)

end TypeAtlas
