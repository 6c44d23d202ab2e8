import TypeAtlas.Proofs.Syntax.Preorder

/-! How bodies are read, member by member. A reading that succeeds is taken apart once, into a derivation whose
rules are the kinds of members; what the declarations of a file are is then shown by induction on derivations. -/

namespace TypeAtlas.Syntax

namespace Tree

def bodyChildren : List Tree → List Tree
  | [] => []
  | t :: ts => if t.field = some "body" then t.children else bodyChildren ts

def memberFields (o : Owner) (t : Tree) : Except Error (List FieldDecl) :=
  if !t.isNamed then .ok []
  else match t.kind with
    | .enumConstant => .ok [t.constant o]
    | .fieldDeclaration | .constantDeclaration => t.fields o
    | _ => .ok []

/-- The method or constructor that a member declares after the given fields, if it is one. -/
def memberMethod (o : Owner) (fields : List FieldDecl) (t : Tree) : Except Error (Option MethodDecl) :=
  if !t.isNamed then .ok none
  else match t.kind with
    | .methodDeclaration | .annotationTypeElementDeclaration => (t.method o).map some
    | .constructorDeclaration | .compactConstructorDeclaration => (t.constructor o fields).map some
    | _ => .ok none

/-- A node that is no type and holds no members. -/
def Plain (t : Tree) : Prop := t.kind ≠ .enumBodyDeclarations ∧ ¬ t.DeclaresType

/-- A type with a name: what it declares outside its body, and itself as the owner of what is in there. -/
inductive Begins (p : Place) (t : Tree) : Declaration → Owner → Prop
  | intro {kind : TypeKind} {d : Declaration} (named : t.nameText ≠ "") (type : t.kind.typeKind? = some kind)
      (head : t.declarationHead p kind = .ok d) :
      Begins p t d ⟨p, d.name, p.scope t.nameText d.typeParameters, kind = .interfaceType⟩

end Tree

/-- The latter members have those in addition that the nodes of a body declare. -/
inductive Collects : Owner → Members → List Tree → Members → Prop
  | done (o : Owner) (m : Members) : Collects o m [] m
  | plain {o : Owner} {m m' : Members} {t : Tree} {ts : List Tree} {fields : List FieldDecl} {method : Option MethodDecl}
      (plain : t.isNamed → t.Plain) (fields_eq : t.memberFields o = .ok fields)
      (method_eq : t.memberMethod o m.fields = .ok method)
      (rest : Collects o { m with fields := m.fields ++ fields, methods := m.methods ++ method.toList } ts m') :
      Collects o m (t :: ts) m'
  | constants {o : Owner} {m m₁ m' : Members} {t : Tree} {ts : List Tree} (named : t.isNamed)
      (kind : t.kind = .enumBodyDeclarations) (inside : Collects o m t.children m₁) (rest : Collects o m₁ ts m') :
      Collects o m (t :: ts) m'
  | type {o inner : Owner} {m body m' : Members} {t : Tree} {ts : List Tree} {d : Declaration} (named : t.isNamed)
      (begins : t.Begins (o.place.member o.name o.scope (t.modifiers.contains "static")) d inner)
      (inside : Collects inner { fields := d.fields } (Tree.bodyChildren t.children) body)
      (rest : Collects o { m with nested := m.nested ++ body.close d } ts m') : Collects o m (t :: ts) m'

/-- The declarations of the types among the nodes of a file, of which the unnamed ones do not count, after a package. -/
inductive CollectsTop (path : Option String) (unit : CompilationUnit) : String → List Tree → List Declaration → Prop
  | done (package : String) : CollectsTop path unit package [] []
  | package {package : String} {t : Tree} {ts : List Tree} {ds : List Declaration} (named : t.isNamed)
      (kind : t.kind = .packageDeclaration) (rest : CollectsTop path unit t.packageName ts ds) :
      CollectsTop path unit package (t :: ts) ds
  | other {package : String} {t : Tree} {ts : List Tree} {ds : List Declaration}
      (other : t.isNamed → t.kind ≠ .packageDeclaration ∧ ¬ t.DeclaresType)
      (rest : CollectsTop path unit package ts ds) : CollectsTop path unit package (t :: ts) ds
  | type {package : String} {t : Tree} {ts : List Tree} {d : Declaration} {o : Owner} {body : Members}
      {ds : List Declaration} (named : t.isNamed) (begins : t.Begins (.top path unit package) d o)
      (inside : Collects o { fields := d.fields } (Tree.bodyChildren t.children) body)
      (rest : CollectsTop path unit package ts ds) : CollectsTop path unit package (t :: ts) (body.close d ++ ds)

section

variable {path : Option String} {unit : CompilationUnit} {o : Owner} {m m' : Members} {s s' : List Warning}
  {t : Tree} {ts : List Tree} {d : Declaration} {ds : List Declaration}

theorem begins_of_openType {p : Place} {kind : TypeKind} (type : t.kind.typeKind? = some kind)
    (h : Gives (t.openType p kind) s (some (d, o)) s') : t.Begins p d o := by
  obtain ⟨named, head, -⟩ := gives_openType h
  rw [owner_of_openType h]
  exact .intro named type head

theorem Tree.Begins.declaresType {p : Place} (h : t.Begins p d o) : t.DeclaresType := by
  obtain ⟨named, type, -⟩ := h
  exact ⟨by simp [type], named⟩

theorem Tree.Begins.place_eq {p : Place} (h : t.Begins p d o) : o.place = p := by
  obtain ⟨-, -, -⟩ := h
  rfl

/-! ### Readings have derivations -/

namespace Tree

theorem plain_of_kind (kind : t.kind ≠ .enumBodyDeclarations) (type : t.kind.typeKind? = none) : t.Plain :=
  ⟨kind, by simp [DeclaresType, type]⟩

variable {m₂ : Members}

/-- A member that is passed over. -/
theorem collects_of_skipped (plain : t.isNamed → t.Plain) (fields_eq : t.memberFields o = .ok [])
    (method_eq : t.memberMethod o m.fields = .ok none) (rest : Collects o m ts m₂) : Collects o m (t :: ts) m₂ := by
  refine .plain plain fields_eq method_eq ?_
  rwa [Option.toList_none, List.append_nil, List.append_nil]

theorem collects_of_fields (plain : t.Plain) (fields_eq : t.memberFields o = t.fields o)
    (method_eq : t.memberMethod o m.fields = .ok none)
    (h : Gives ((liftM (t.fields o) : Warned (List FieldDecl)) >>= fun fs => pure { m with fields := m.fields ++ fs })
      s m' s')
    (rest : Collects o m' ts m₂) : Collects o m (t :: ts) m₂ := by
  obtain ⟨fs, s₁, hf, h⟩ := gives_bind.mp h
  obtain ⟨rfl, -⟩ := gives_pure.mp h
  refine .plain (fun _ => plain) (fields_eq.trans (gives_except.mp hf).1) method_eq ?_
  rwa [Option.toList_none, List.append_nil]

/-- A method or a constructor. -/
theorem collects_of_method {x : Except Error MethodDecl} (plain : t.Plain) (fields_eq : t.memberFields o = .ok [])
    (method_eq : t.memberMethod o m.fields = x.map some)
    (h : Gives ((liftM x : Warned MethodDecl) >>= fun r => pure { m with methods := m.methods ++ [r] }) s m' s')
    (rest : Collects o m' ts m₂) : Collects o m (t :: ts) m₂ := by
  obtain ⟨r, s₁, hr, h⟩ := gives_bind.mp h
  obtain ⟨rfl, -⟩ := gives_pure.mp h
  rw [(gives_except.mp hr).1] at method_eq
  refine .plain (fun _ => plain) fields_eq method_eq ?_
  rwa [List.append_nil]

mutual

theorem collects_of_readBody (o : Owner) (m : Members) : (ts : List Tree) → {s s' : List Warning} → {m' : Members} →
    Gives (readBody o m ts) s m' s' → Collects o m (bodyChildren ts) m'
  | [], s, s', m', h => by
    rw [readBody, gives_pure] at h
    exact h.1 ▸ .done o m
  | t :: ts, s, s', m', h => by
    rw [readBody] at h
    rw [bodyChildren]
    split at h
    · rename_i body
      rw [if_pos body]
      exact collects_of_readInside o m t h
    · rename_i other
      rw [if_neg other]
      exact collects_of_readBody o m ts h

theorem collects_of_readInside (o : Owner) (m : Members) : (t : Tree) → {s s' : List Warning} → {m' : Members} →
    Gives (readInside o m t) s m' s' → Collects o m t.children m'
  | ⟨_, _, _, _, _, children⟩, _, _, _, h => collects_of_readMembers o m children h

theorem collects_of_readMembers (o : Owner) (m : Members) : (ts : List Tree) → {s s' : List Warning} → {m' : Members} →
    Gives (readMembers o m ts) s m' s' → Collects o m ts m'
  | [], s, s', m', h => by
    rw [readMembers, gives_pure] at h
    exact h.1 ▸ .done o m
  | t :: ts, s, s', m', h => by
    rw [readMembers] at h
    obtain ⟨m₁, s₁, h₁, h₂⟩ := gives_bind.mp h
    exact collects_of_readMember o m t h₁ (collects_of_readMembers o m₁ ts h₂)

theorem collects_of_readMember (o : Owner) (m : Members) : (t : Tree) → {s s' : List Warning} → {m' : Members} →
    Gives (readMember o m t) s m' s' → ∀ {ts m₂}, Collects o m' ts m₂ → Collects o m (t :: ts) m₂
  | ⟨kind, isNamed, field, text, line, children⟩, s, s', m', h, ts, m₂, rest => by
    unfold readMember at h
    dsimp only at h
    split at h
    · rename_i unnamed
      obtain ⟨rfl, -⟩ := gives_pure.mp h
      refine collects_of_skipped (fun named => absurd unnamed (by simpa using named)) ?_ ?_ rest
      · rw [memberFields, if_pos unnamed]
      · rw [memberMethod, if_pos unnamed]
    · rename_i named
      split at h
      · obtain ⟨rfl, -⟩ := gives_pure.mp h
        have method_eq : memberMethod o m.fields ⟨.enumConstant, isNamed, field, text, line, children⟩ = .ok none :=
          if_neg named
        refine .plain (fun _ => plain_of_kind nofun rfl) (if_neg named) method_eq ?_
        rwa [Option.toList_none, List.append_nil]
      · exact .constants (by simpa using named) rfl (collects_of_readMembers o m children h) rest
      · exact collects_of_fields (plain_of_kind nofun rfl) (if_neg named) (if_neg named) h rest
      · exact collects_of_fields (plain_of_kind nofun rfl) (if_neg named) (if_neg named) h rest
      · exact collects_of_method (plain_of_kind nofun rfl) (if_neg named) (if_neg named) h rest
      · exact collects_of_method (plain_of_kind nofun rfl) (if_neg named) (if_neg named) h rest
      · exact collects_of_method (plain_of_kind nofun rfl) (if_neg named) (if_neg named) h rest
      · exact collects_of_method (plain_of_kind nofun rfl) (if_neg named) (if_neg named) h rest
      · rename_i constants _ _ _ _ _ _
        have fields_eq : memberFields o ⟨kind, isNamed, field, text, line, children⟩ = .ok [] := by
          simp [memberFields]
        have method_eq : memberMethod o m.fields ⟨kind, isNamed, field, text, line, children⟩ = .ok none := by
          simp [memberMethod]
        split at h
        · rename_i type
          obtain ⟨rfl, -⟩ := gives_pure.mp h
          exact collects_of_skipped (fun _ => plain_of_kind constants type) fields_eq method_eq rest
        · rename_i typeKind type
          obtain ⟨opened, s₁, ho, h⟩ := gives_bind.mp h
          cases opened with
          | none =>
            obtain ⟨rfl, -⟩ := gives_pure.mp h
            have plain : Plain ⟨kind, isNamed, field, text, line, children⟩ :=
              ⟨constants, fun type => type.2 (nameless_of_openType ho)⟩
            exact collects_of_skipped (fun _ => plain) fields_eq method_eq rest
          | some opened =>
            obtain ⟨d, inner⟩ := opened
            obtain ⟨body, s₂, hb, h⟩ := gives_bind.mp h
            obtain ⟨rfl, -⟩ := gives_pure.mp h
            exact .type (by simpa using named) (begins_of_openType type ho)
              (collects_of_readBody inner { fields := d.fields } children hb) rest

end

end Tree

theorem collectsTop_of_readTop : ∀ {package : String} {s s' : List Warning} {ds : List Declaration},
    Gives (readTop path unit package (ts.filter (·.isNamed))) s ds s' → CollectsTop path unit package ts ds := by
  induction ts with
  | nil =>
    intro package s s' ds h
    rw [List.filter_nil, readTop, gives_pure] at h
    exact h.1 ▸ .done package
  | cons t ts ih =>
    intro package s s' ds h
    by_cases named : t.isNamed = true
    · rw [List.filter_cons_of_pos named] at h
      unfold readTop at h
      split at h
      · rename_i kind
        exact .package named kind (ih h)
      · rename_i kind
        have other : t.kind ≠ .packageDeclaration ∧ ¬ t.DeclaresType := by
          simp [kind, Tree.DeclaresType, NodeKind.typeKind?]
        dsimp only at h
        split at h
        · obtain ⟨_, s₁, -, h⟩ := gives_bind.mp h
          exact .other (fun _ => other) (ih h)
        · exact .other (fun _ => other) (ih h)
      · rename_i package _
        split at h
        · rename_i type
          exact .other (fun _ => ⟨package, by simp [Tree.DeclaresType, type]⟩) (ih h)
        · rename_i typeKind type
          obtain ⟨first, s₁, hf, h⟩ := gives_bind.mp h
          obtain ⟨rest, s₂, hr, h⟩ := gives_bind.mp h
          obtain ⟨rfl, -⟩ := gives_pure.mp h
          unfold Tree.readType at hf
          obtain ⟨opened, s₃, ho, hf⟩ := gives_bind.mp hf
          cases opened with
          | none =>
            obtain ⟨rfl, -⟩ := gives_pure.mp hf
            exact .other (fun _ => ⟨package, fun t => t.2 (nameless_of_openType ho)⟩) (ih hr)
          | some opened =>
            obtain ⟨d, o⟩ := opened
            obtain ⟨body, s₄, hb, hf⟩ := gives_bind.mp hf
            obtain ⟨rfl, -⟩ := gives_pure.mp hf
            have inside := Tree.collects_of_readBody o { fields := d.fields } t.children hb
            exact .type named (begins_of_openType type ho) inside (ih hr)
    · rw [List.filter_cons_of_neg named] at h
      exact .other (fun h => absurd h named) (ih h)

theorem collectsTop_of_read {f : ParsedFile} (h : Gives (f.read path) s ds s') :
    CollectsTop path (unitOf f.root) "" f.root.children ds := by
  unfold ParsedFile.read at h
  dsimp only at h
  split at h
  · obtain ⟨_, s₁, -, h⟩ := gives_bind.mp h
    exact collectsTop_of_readTop h
  · exact collectsTop_of_readTop h

end

/-! ### Methods -/

namespace Tree

theorem exists_of_map_some {ε α : Type} {x : Except ε α} {a : Option α} (h : x.map some = .ok a) :
    ∃ b, x = .ok b ∧ a = some b := by
  cases x with
  | error e => cases h
  | ok b =>
    cases h
    exact ⟨b, rfl, rfl⟩

/-- Every method is completed in the scope of its owner. -/
theorem exists_completeMethod {o : Owner} {t : Tree} {fields : List FieldDecl} {method : Option MethodDecl}
    {m : MethodDecl} (h : t.memberMethod o fields = .ok method) (hm : m ∈ method) :
    ∃ m₀, completeMethod o m₀ t = .ok m := by
  cases hm
  unfold memberMethod at h
  split at h
  · cases h
  · split at h
    -- methods and elements of annotations, and then both kinds of constructors
    iterate 2
      · obtain ⟨m', hm, eq⟩ := exists_of_map_some h
        cases eq
        obtain ⟨returns, -, hm⟩ := bind_eq_ok.mp hm
        exact ⟨_, hm⟩
    iterate 2
      · obtain ⟨m', hm, eq⟩ := exists_of_map_some h
        cases eq
        exact ⟨_, hm⟩
    · cases h

end Tree

/-! ### Type nodes and their declarations -/

/-- The declaration of a type node: what it declares outside its body, with the fields and methods in there. The place
where it stands has the type variables that the types around the node have in sight. -/
inductive TypeNode.ReadAt (path : Option String) (unit : CompilationUnit) (n : TypeNode) : Declaration → Prop
  | intro {p : Place} {d : Declaration} {o : Owner} {m : Members} (path_eq : p.path = path) (unit_eq : p.unit = unit)
      (variables_eq : p.typeVariables =
        if n.node.modifiers.contains "static" then [] else variablesInSight n.around)
      (begins : n.node.Begins p d o) (body : Collects o { fields := d.fields } (Tree.bodyChildren n.node.children) m) :
      ReadAt path unit n { d with fields := m.fields, methods := m.methods }

section

variable {path : Option String} {unit : CompilationUnit} {o : Owner} {m m' : Members} {t : Tree}
  {ts around : List Tree} {d : Declaration} {ds es : List Declaration} {ns ms : List TypeNode}

/-- Where a node stands among others makes no difference to its declaration. -/
theorem TypeNode.ReadAt.moved {n k : TypeNode} (h : n.ReadAt path unit d) (node : k.node = n.node)
    (same : k.around = n.around) : k.ReadAt path unit d := by
  obtain ⟨path_eq, unit_eq, variables_eq, begins, body⟩ := h
  refine .intro path_eq unit_eq ?_ (node ▸ begins) (node ▸ body)
  rw [node, same, variables_eq]

theorem readAt_numbered (h : List.Forall₂ (TypeNode.ReadAt path unit) ns ds)
    (h' : List.Forall₂ (TypeNode.ReadAt path unit) ms es) :
    List.Forall₂ (TypeNode.ReadAt path unit) (numbered ns ms) (ds ++ es) :=
  List.rel_append (List.forall₂_map_left_iff.mpr (h.imp fun _ _ r => r.moved rfl rfl))
    (List.forall₂_map_left_iff.mpr (h'.imp fun _ _ r => r.moved rfl rfl))

namespace Tree

theorem readAt_bodyTypes (h : List.Forall₂ (TypeNode.ReadAt path unit) (memberTypes around (bodyChildren ts)) ds) :
    List.Forall₂ (TypeNode.ReadAt path unit) (bodyTypes around ts) ds := by
  induction ts with
  | nil => simpa [bodyTypes, bodyChildren, memberTypes] using h
  | cons t ts ih =>
    rw [bodyChildren] at h
    rw [bodyTypes]
    split at h
    · rename_i body
      rw [if_pos body, insideTypes_eq, ← List.append_nil ds]
      exact readAt_numbered h .nil
    · rename_i other
      rw [if_neg other]
      exact readAt_numbered .nil (ih h)

theorem typesAt_of_plain (plain : t.isNamed → t.Plain) : t.typesAt around = [] := by
  rw [typesAt_eq]
  by_cases named : t.isNamed = true
  · rw [if_neg (by simp [named]), if_neg (plain named).1, typesFrom, if_neg (plain named).2]
  · rw [if_pos (by simpa using named)]

/-- The owner of the body of a type has its type variables in sight. -/
theorem Begins.variablesInSight {p : Place} (h : t.Begins p d o)
    (outer : p.typeVariables = if t.modifiers.contains "static" then [] else variablesInSight around) :
    o.scope.typeVariables = variablesInSight (t :: around) := by
  obtain ⟨named, type, head⟩ := h
  have own := names_of_typeParameters (headOf_of_declarationHead head).typeParameters
  rw [Syntax.variablesInSight, ← own, ← outer]
  rfl

end Tree

/-- What members of the given owner have in addition to others are declarations of these type nodes, if the owner
stands in the file and sees the type variables that the types around the nodes have in sight. -/
def ReadInside (path : Option String) (unit : CompilationUnit) (o : Owner) (around : List Tree) (ns : List TypeNode)
    (m m' : Members) : Prop :=
  o.place.path = path → o.place.unit = unit → o.scope.typeVariables = variablesInSight around →
    ∃ ds, m'.nested = m.nested ++ ds ∧ List.Forall₂ (TypeNode.ReadAt path unit) ns ds

/-- The declaration of a type and those in its body, from its node and those in its body. -/
theorem readAt_close {p : Place} (begins : t.Begins p d o)
    (collected : Collects o { fields := d.fields } (Tree.bodyChildren t.children) m)
    (inside : ReadInside path unit o (t :: around) (Tree.memberTypes (t :: around) (Tree.bodyChildren t.children))
      { fields := d.fields } m)
    (path_eq : p.path = path) (unit_eq : p.unit = unit)
    (variables_eq : p.typeVariables = if t.modifiers.contains "static" then [] else variablesInSight around) :
    List.Forall₂ (TypeNode.ReadAt path unit) (t.typesFrom around) (m.close d) := by
  have place := begins.place_eq
  obtain ⟨ds, eq, reads⟩ := inside (place ▸ path_eq) (place ▸ unit_eq) (begins.variablesInSight variables_eq)
  rw [Tree.typesFrom, if_pos begins.declaresType, Members.close, eq]
  exact .cons (.intro path_eq unit_eq variables_eq begins collected) (Tree.readAt_bodyTypes reads)

theorem Collects.readAt (h : Collects o m ts m') : ReadInside path unit o around (Tree.memberTypes around ts) m m' := by
  induction h generalizing around with
  | done o m => exact fun _ _ _ => ⟨[], (List.append_nil _).symm, .nil⟩
  | plain plain _ _ _ ih =>
    intro path_eq unit_eq sees
    obtain ⟨ds, eq, reads⟩ := ih path_eq unit_eq sees
    rw [Tree.memberTypes, Tree.typesAt_of_plain plain]
    exact ⟨ds, eq, readAt_numbered .nil reads⟩
  | constants named kind _ _ inside rest =>
    intro path_eq unit_eq sees
    obtain ⟨ds, eq, reads⟩ := inside path_eq unit_eq sees
    obtain ⟨es, eq', reads'⟩ := rest path_eq unit_eq sees
    rw [Tree.memberTypes, Tree.typesAt_eq, if_neg (by simp [named]), if_pos kind]
    exact ⟨ds ++ es, by rw [eq', eq, List.append_assoc], readAt_numbered reads reads'⟩
  | @type o inner _ body _ t _ d named begins collected _ inside rest =>
    intro path_eq unit_eq sees
    obtain ⟨es, eq, reads⟩ := rest path_eq unit_eq sees
    have kind : t.kind ≠ .enumBodyDeclarations := fun kind => Tree.not_declaresType kind begins.declaresType
    rw [Tree.memberTypes, Tree.typesAt_eq, if_neg (by simp [named]), if_neg kind]
    refine ⟨body.close d ++ es, by rw [eq, List.append_assoc], readAt_numbered ?_ reads⟩
    refine readAt_close begins collected inside path_eq unit_eq ?_
    rw [← sees]
    rfl

theorem CollectsTop.readAt {package : String} (h : CollectsTop path unit package ts ds) :
    List.Forall₂ (TypeNode.ReadAt path unit) (topTypes ts) ds := by
  induction h with
  | done package => exact .nil
  | @package _ t _ _ named kind _ ih =>
    have none : t.typesFrom [] = [] := if_neg (by simp [Tree.DeclaresType, kind, NodeKind.typeKind?])
    rw [topTypes, if_pos named, none]
    exact readAt_numbered .nil ih
  | @other _ t _ _ other _ ih =>
    have none : (if t.isNamed then t.typesFrom [] else []) = [] := by
      split
      · rename_i named
        exact if_neg (other named).2
      · rfl
    rw [topTypes, none]
    exact readAt_numbered .nil ih
  | @type _ t _ d o body _ named begins collected _ ih =>
    rw [topTypes, if_pos named]
    refine readAt_numbered (readAt_close begins collected collected.readAt rfl rfl ?_) ih
    rw [variablesInSight, ite_self]
    rfl

/-- A file is read into one declaration for each of its type nodes, in their order. -/
theorem readAt_of_read {f : ParsedFile} {s s' : List Warning} (h : Gives (f.read path) s ds s') :
    List.Forall₂ (TypeNode.ReadAt path (unitOf f.root)) (topTypes f.root.children) ds :=
  (collectsTop_of_read h).readAt

end

end TypeAtlas.Syntax
