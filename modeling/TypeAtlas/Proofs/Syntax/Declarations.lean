import TypeAtlas.Proofs.Runs
import TypeAtlas.Proofs.Scope.Inheritance
import TypeAtlas.Syntax.Reader

/-! Where the declarations of a file come from: each is what some type of the file declares outside its
body, with fields and methods added, and all of them see the same package and imports. -/

namespace TypeAtlas.Syntax

def ScopedIn (unit : CompilationUnit) (scope : Option Scope) : Prop := ∃ s, scope = some (.lexical s) ∧ s.unit = unit

/-- A declaration opened in a file with the given unit. -/
inductive Opened (unit : CompilationUnit) : Declaration → Prop
  | intro (p : Place) (kind : TypeKind) (t : Tree) (d : Declaration) (fields : List FieldDecl)
      (methods : List MethodDecl) (unit_eq : p.unit = unit) (name : t.nameText ≠ "")
      (head : t.declarationHead p kind = .ok d) (within : ∀ m ∈ methods, ScopedIn unit m.scope) :
      Opened unit { d with fields := fields, methods := methods }

variable {s s' : List Warning} {m m' : Members}

theorem gives_openType {p : Place} {kind : TypeKind} {t : Tree} {d : Declaration} {o : Owner}
    (h : Gives (t.openType p kind) s (some (d, o)) s') :
    t.nameText ≠ "" ∧ t.declarationHead p kind = .ok d ∧ o.place = p := by
  unfold Tree.openType at h
  split at h
  · obtain ⟨_, _, -, h⟩ := gives_bind.mp h
    cases (gives_pure.mp h).1
  · rename_i name
    obtain ⟨d', s₁, hd, h⟩ := gives_bind.mp h
    cases (gives_pure.mp h).1
    exact ⟨name, (gives_except.mp hd).1, rfl⟩

theorem owner_of_openType {p : Place} {kind : TypeKind} {t : Tree} {d : Declaration} {o : Owner}
    (h : Gives (t.openType p kind) s (some (d, o)) s') :
    o = ⟨p, d.name, p.scope t.nameText d.typeParameters, kind = .interfaceType⟩ := by
  unfold Tree.openType at h
  split at h
  · obtain ⟨_, _, -, h⟩ := gives_bind.mp h
    cases (gives_pure.mp h).1
  · obtain ⟨d', s₁, hd, h⟩ := gives_bind.mp h
    cases (gives_pure.mp h).1
    rfl

theorem unit_of_openType {p : Place} {kind : TypeKind} {t : Tree} {d : Declaration} {o : Owner}
    (h : Gives (t.openType p kind) s (some (d, o)) s') : o.scope.unit = o.place.unit := by
  rw [owner_of_openType h]
  rfl

/-- All nested types of the latter members that the former lack were opened in between, and all methods were read
in the file. -/
structure Adds (unit : CompilationUnit) (m m' : Members) : Prop where
  nested : ∀ d ∈ m'.nested, d ∈ m.nested ∨ Opened unit d
  methods : ∀ r ∈ m'.methods, r ∈ m.methods ∨ ScopedIn unit r.scope

theorem Adds.refl (unit : CompilationUnit) (m : Members) : Adds unit m m := ⟨fun _ h => .inl h, fun _ h => .inl h⟩

theorem Adds.trans {unit : CompilationUnit} {m₁ m₂ m₃ : Members} (h₁ : Adds unit m₁ m₂) (h₂ : Adds unit m₂ m₃) :
    Adds unit m₁ m₃ where
  nested d hd := (h₂.nested d hd).elim (h₁.nested d) .inr
  methods r hr := (h₂.methods r hr).elim (h₁.methods r) .inr

theorem Adds.fields (unit : CompilationUnit) (m : Members) (fields : List FieldDecl) :
    Adds unit m { m with fields := fields } := ⟨fun _ h => .inl h, fun _ h => .inl h⟩

/-- Members that are given fields. -/
theorem adds_fields {unit : CompilationUnit} {x : Warned (List FieldDecl)}
    (h : Gives (x >>= fun fields => pure { m with fields := m.fields ++ fields }) s m' s') : Adds unit m m' := by
  obtain ⟨fields, s₁, -, h⟩ := gives_bind.mp h
  exact (gives_pure.mp h).1 ▸ .fields unit m _

theorem scopedIn_of_completeMethod {o : Owner} {r r' : MethodDecl} {t : Tree}
    (h : Tree.completeMethod o r t = .ok r') : ScopedIn o.scope.unit r'.scope := by
  unfold Tree.completeMethod at h
  obtain ⟨typeParameters, -, h⟩ := bind_eq_ok.mp h
  obtain ⟨parameters, -, h⟩ := bind_eq_ok.mp h
  obtain ⟨throws, -, h⟩ := bind_eq_ok.mp h
  cases h
  exact ⟨_, rfl, rfl⟩

theorem scopedIn_of_method {o : Owner} {r : MethodDecl} {t : Tree} (h : t.method o = .ok r) :
    ScopedIn o.scope.unit r.scope := by
  obtain ⟨returns, -, h⟩ := bind_eq_ok.mp h
  exact scopedIn_of_completeMethod h

/-- Members that are given a method. -/
theorem adds_method {unit : CompilationUnit} {x : Except Error MethodDecl}
    (h : Gives ((liftM x : Warned MethodDecl) >>= fun r => pure { m with methods := m.methods ++ [r] }) s m' s')
    (within : ∀ r, x = .ok r → ScopedIn unit r.scope) : Adds unit m m' := by
  obtain ⟨r, s₁, hr, h⟩ := gives_bind.mp h
  obtain ⟨rfl, -⟩ := gives_pure.mp h
  refine ⟨fun _ h => .inl h, fun r' hr' => ?_⟩
  rcases List.mem_append.mp hr' with old | new
  · exact .inl old
  · exact .inr (List.mem_singleton.mp new ▸ within r (gives_except.mp hr).1)

/-- A type that is closed gives itself and what was opened in its body. -/
theorem opened_of_mem_close {unit : CompilationUnit} {p : Place} {kind : TypeKind} {t : Tree} {d e : Declaration}
    {fields : List FieldDecl} (head : t.declarationHead p kind = .ok d) (unit_eq : p.unit = unit)
    (name : t.nameText ≠ "") (body : Adds unit { fields := fields } m) (he : e ∈ m.close d) :
    Opened unit e := by
  rcases List.mem_cons.mp he with rfl | he
  · exact .intro p kind t d _ _ unit_eq name head fun r hr => (body.methods r hr).resolve_left List.not_mem_nil
  · exact (body.nested e he).resolve_left List.not_mem_nil

namespace Tree

mutual

theorem readBody_adds (o : Owner) (same : o.scope.unit = o.place.unit) (m : Members) : (ts : List Tree) →
    {s s' : List Warning} → {m' : Members} → Gives (readBody o m ts) s m' s' → Adds o.place.unit m m'
  | [], s, s', m', h => by
    rw [readBody, gives_pure] at h
    exact h.1 ▸ .refl _ _
  | t :: ts, s, s', m', h => by
    rw [readBody] at h
    split at h
    · exact readInside_adds o same m t h
    · exact readBody_adds o same m ts h

theorem readInside_adds (o : Owner) (same : o.scope.unit = o.place.unit) (m : Members) : (t : Tree) →
    {s s' : List Warning} → {m' : Members} → Gives (readInside o m t) s m' s' → Adds o.place.unit m m'
  | ⟨_, _, _, _, _, children⟩, _, _, _, h => readMembers_adds o same m children h

theorem readMembers_adds (o : Owner) (same : o.scope.unit = o.place.unit) (m : Members) : (ts : List Tree) →
    {s s' : List Warning} → {m' : Members} → Gives (readMembers o m ts) s m' s' → Adds o.place.unit m m'
  | [], s, s', m', h => by
    rw [readMembers, gives_pure] at h
    exact h.1 ▸ .refl _ _
  | t :: ts, s, s', m', h => by
    rw [readMembers] at h
    obtain ⟨m₁, s₁, h₁, h₂⟩ := gives_bind.mp h
    exact (readMember_adds o same m t h₁).trans (readMembers_adds o same m₁ ts h₂)

theorem readMember_adds (o : Owner) (same : o.scope.unit = o.place.unit) (m : Members) : (t : Tree) →
    {s s' : List Warning} → {m' : Members} → Gives (readMember o m t) s m' s' → Adds o.place.unit m m'
  | ⟨kind, isNamed, field, text, line, children⟩, s, s', m', h => by
    unfold readMember at h
    dsimp only at h
    split at h
    · exact (gives_pure.mp h).1 ▸ .refl _ _
    · split at h
      · exact (gives_pure.mp h).1 ▸ .fields _ m _
      · exact readMembers_adds o same m children h
      · exact adds_fields h
      · exact adds_fields h
      -- methods and constructors
      · exact adds_method h fun r => same ▸ scopedIn_of_method
      · exact adds_method h fun r => same ▸ scopedIn_of_method
      · exact adds_method h fun r => same ▸ scopedIn_of_completeMethod
      · exact adds_method h fun r => same ▸ scopedIn_of_completeMethod
      · split at h
        · exact (gives_pure.mp h).1 ▸ .refl _ _
        · obtain ⟨opened, s₁, ho, h⟩ := gives_bind.mp h
          cases opened with
          | none => exact (gives_pure.mp h).1 ▸ .refl _ _
          | some opened =>
            obtain ⟨d, inner⟩ := opened
            obtain ⟨body, s₂, hb, h⟩ := gives_bind.mp h
            obtain ⟨name, head, place⟩ := gives_openType ho
            have adds := readBody_adds inner (unit_of_openType ho) { fields := d.fields } children hb
            rw [place] at adds
            obtain ⟨rfl, -⟩ := gives_pure.mp h
            refine ⟨fun e he => ?_, fun _ h => .inl h⟩
            exact (List.mem_append.mp he).imp_right (opened_of_mem_close head rfl name adds)

end

theorem opened_of_mem_readType {p : Place} {kind : TypeKind} {t : Tree} {ds : List Declaration}
    (h : Gives (t.readType p kind) s ds s') : ∀ d ∈ ds, Opened p.unit d := by
  unfold readType at h
  obtain ⟨opened, s₁, ho, h⟩ := gives_bind.mp h
  cases opened with
  | none =>
    obtain ⟨rfl, -⟩ := gives_pure.mp h
    exact fun d hd => absurd hd List.not_mem_nil
  | some opened =>
    obtain ⟨d, inner⟩ := opened
    obtain ⟨body, s₂, hb, h⟩ := gives_bind.mp h
    obtain ⟨name, head, place⟩ := gives_openType ho
    have adds := readBody_adds inner (unit_of_openType ho) { fields := d.fields } t.children hb
    rw [place] at adds
    obtain ⟨rfl, -⟩ := gives_pure.mp h
    exact fun e => opened_of_mem_close head rfl name adds

end Tree

theorem opened_of_mem_readTop {path : Option String} {unit : CompilationUnit} {ts : List Tree} :
    ∀ {package : String} {s s' : List Warning} {ds : List Declaration},
      Gives (readTop path unit package ts) s ds s' → ∀ d ∈ ds, Opened unit d := by
  induction ts with
  | nil =>
    intro package s s' ds h
    rw [readTop, gives_pure] at h
    obtain ⟨rfl, -⟩ := h
    exact fun d hd => absurd hd List.not_mem_nil
  | cons t ts ih =>
    intro package s s' ds h
    unfold readTop at h
    split at h
    · exact ih h
    · dsimp only at h
      split at h
      · obtain ⟨_, s₁, -, h⟩ := gives_bind.mp h
        exact ih h
      · exact ih h
    · split at h
      · exact ih h
      · obtain ⟨first, s₁, hf, h⟩ := gives_bind.mp h
        obtain ⟨rest, s₂, hr, h⟩ := gives_bind.mp h
        obtain ⟨rfl, -⟩ := gives_pure.mp h
        intro d hd
        rcases List.mem_append.mp hd with hd | hd
        · exact Tree.opened_of_mem_readType hf d hd
        · exact ih hr d hd

theorem opened_of_mem_read {f : ParsedFile} {path : Option String} {ds : List Declaration}
    (h : Gives (f.read path) s ds s') : ∀ d ∈ ds, Opened (unitOf f.root) d := by
  unfold ParsedFile.read at h
  dsimp only at h
  split at h
  · obtain ⟨_, s₁, -, h⟩ := gives_bind.mp h
    exact opened_of_mem_readTop h
  · exact opened_of_mem_readTop h

/-! ### What a declaration says outside its body -/

theorem primitiveSignature?_ne {word w : String} (h : primitiveSignature? word = some w) : w ≠ "" := by
  unfold primitiveSignature? at h
  split at h
  · cases h
    simp
  · obtain ⟨p, -, rfl⟩ := Option.map_eq_some_iff.mp h
    cases p <;> simp

theorem ne_empty_of_primitive {text w : String} {e : TypeProblem}
    (h : (match primitiveSignature? text with
      | some signature => .ok signature
      | none => .error e) = Except.ok w) : w ≠ "" := by
  split at h
  · rename_i hs
    cases h
    exact primitiveSignature?_ne hs
  · cases h

theorem Tree.encodeType_ne (t : Tree) {depth : Nat} {w : String} (h : t.encodeType depth = .ok w) : w ≠ "" := by
  have reference (h : (t.encodePath depth >>= fun path => .ok ("Q" ++ path ++ ";")) = .ok w) : w ≠ "" := by
    obtain ⟨path, -, h⟩ := bind_eq_ok.mp h
    cases h
    simp
  unfold Tree.encodeType at h
  split at h
  · cases h
  · split at h
    · exact ne_empty_of_primitive h
    · exact ne_empty_of_primitive h
    · exact ne_empty_of_primitive h
    · exact ne_empty_of_primitive h
    · exact reference h
    · exact reference h
    · exact reference h
    · split at h
      · rename_i element he
        obtain ⟨e, hs, h⟩ := bind_eq_ok.mp h
        have := sizeOf_lt_of_child? he
        have ne := element.encodeType_ne hs
        cases h
        simpa using fun _ => ne
      · cases h
    · split at h
      · rename_i type ht
        have := sizeOf_lt_of_mem_parts (List.mem_of_getLast? ht)
        exact type.encodeType_ne h
      · cases h
    · cases h
termination_by sizeOf t

theorem ne_empty_of_declaredType {path : Option String} {t : Option Tree} {w : String}
    (h : declaredType path t = .ok w) : w ≠ "" := by
  cases t with
  | none => cases h
  | some t =>
    cases hw : t.signature with
    | error e =>
      rw [declaredType, hw] at h
      cases h
    | ok w' =>
      rw [declaredType, hw] at h
      cases h
      exact t.encodeType_ne hw

theorem superclass_ne_of_addSupertypes {path : Option String} {t : Tree} {u v : Tree.Supertypes}
    (hu : u.superclass ≠ some "") (h : Tree.addSupertypes path u t = .ok v) : v.superclass ≠ some "" := by
  unfold Tree.addSupertypes at h
  split at h
  · obtain ⟨w, hw, h⟩ := bind_eq_ok.mp h
    cases h
    simpa using ne_empty_of_declaredType hw
  · obtain ⟨ws, -, h⟩ := bind_eq_ok.mp h
    cases h
    exact hu
  · obtain ⟨ws, -, h⟩ := bind_eq_ok.mp h
    cases h
    exact hu
  · cases h
    exact hu

theorem superclass_ne_of_foldlM {path : Option String} {ts : List Tree} {u v : Tree.Supertypes}
    (hu : u.superclass ≠ some "") (h : ts.foldlM (Tree.addSupertypes path) u = .ok v) : v.superclass ≠ some "" := by
  induction ts generalizing u with
  | nil =>
    cases h
    exact hu
  | cons t ts ih =>
    rw [List.foldlM_cons] at h
    obtain ⟨u', hu', h⟩ := bind_eq_ok.mp h
    exact ih (superclass_ne_of_addSupertypes hu hu') h

/-- What a type that stands in some place declares outside its body. -/
structure HeadOf (p : Place) (kind : TypeKind) (t : Tree) (d : Declaration) : Prop where
  name_eq : d.name = Text.qualify p.owner t.nameText
  kind_eq : d.kind = .known kind
  superclass_ne : d.superclass ≠ some ""
  typeParameters : t.typeParameters p.path = .ok d.typeParameters
  outer_eq : d.outer = p.outer
  scope_eq : d.scope = some (.lexical (p.scope t.nameText d.typeParameters))
  sourceFile_eq : d.sourceFile = p.path.filter (· ≠ "")

theorem headOf_of_declarationHead {p : Place} {kind : TypeKind} {t : Tree} {d : Declaration}
    (h : t.declarationHead p kind = .ok d) : HeadOf p kind t d := by
  unfold Tree.declarationHead at h
  obtain ⟨parameters, hp, h⟩ := bind_eq_ok.mp h
  obtain ⟨supertypes, hs, h⟩ := bind_eq_ok.mp h
  dsimp only at h
  split at h
  · obtain ⟨components, -, h⟩ := bind_eq_ok.mp h
    cases h
    exact ⟨rfl, rfl, by simp, hp, rfl, rfl, rfl⟩
  · cases h
    exact ⟨rfl, rfl, superclass_ne_of_foldlM (by simp) hs, hp, rfl, rfl, rfl⟩

namespace Opened

variable {unit : CompilationUnit} {d : Declaration}

theorem scope_eq (h : Opened unit d) : ScopedIn unit d.scope := by
  obtain ⟨p, kind, t, d, fields, methods, rfl, name, head, -⟩ := h
  exact ⟨_, (headOf_of_declarationHead head).scope_eq, rfl⟩

theorem methods_scoped (h : Opened unit d) : ∀ m ∈ d.methods, ScopedIn unit m.scope := by
  obtain ⟨p, kind, t, d, fields, methods, -, -, -, within⟩ := h
  exact within

theorem superclass_ne (h : Opened unit d) : d.superclass ≠ some "" := by
  obtain ⟨p, kind, t, d, fields, methods, rfl, name, head, -⟩ := h
  exact (headOf_of_declarationHead head).superclass_ne

theorem kind_known (h : Opened unit d) : ∃ kind, d.kind = .known kind := by
  obtain ⟨p, kind, t, d, fields, methods, rfl, name, head, -⟩ := h
  exact ⟨kind, (headOf_of_declarationHead head).kind_eq⟩

end Opened

/-! ### Imports -/

theorem importsByName_addHeader {u : CompilationUnit} (h : u.ImportsByName) (t : Tree) :
    (addHeader u t).ImportsByName := by
  unfold addHeader
  split
  · exact h
  · split
    · exact h
    · dsimp only
      split
      · exact h
      · split
        · exact h
        · intro i hi
          rcases List.mem_append.mp hi with hi | hi
          · exact h i (List.mem_filter.mp hi).1
          · rw [List.mem_singleton.mp hi]
  · exact h

theorem importsByName_unitOf (root : Tree) : (unitOf root).ImportsByName := by
  have fold (ts : List Tree) : ∀ u : CompilationUnit, u.ImportsByName → (ts.foldl addHeader u).ImportsByName := by
    induction ts with
    | nil => exact fun u h => h
    | cons t ts ih => exact fun u h => ih _ (importsByName_addHeader h t)
  exact fold _ _ fun i hi => absurd hi List.not_mem_nil

end TypeAtlas.Syntax
