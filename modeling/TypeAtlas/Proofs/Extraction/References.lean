import TypeAtlas.Proofs.Extraction.Runs

/-! The names an extraction refers to. A session only ever takes up names, and whatever succeeds has
taken up exactly the names in its result: those of the data types at any depth, without `?` and the
primitives. So the references of a session can be read off the entries it has made. -/

namespace TypeAtlas

namespace DataType

/-- The names that a data type refers to, its arguments included. -/
def references (t : DataType) : List String :=
  ((t.nodes.filter (·.wildcard ≠ some .unbounded)).map (·.fullName)).filter (!isPrimitiveName ·)

def allReferences (ts : List DataType) : List String := ts.flatMap references

theorem nodesOfAll_eq (ts : List DataType) : nodesOfAll ts = ts.flatMap nodes := by
  induction ts with
  | nil => rfl
  | cons t ts ih => rw [nodesOfAll, ih, List.flatMap_cons]

theorem nodes_eq (t : DataType) : t.nodes = t :: t.arguments.flatMap nodes := by
  rcases t with ⟨name, dims, arguments, wildcard⟩
  rw [nodes, nodesOfAll_eq]

/-- The names in a type that is not `?` itself. -/
theorem mem_references {t : DataType} (h : t.wildcard ≠ some .unbounded) (n : String) :
    n ∈ t.references ↔ (n = t.fullName ∧ isPrimitiveName n = false) ∨ n ∈ allReferences t.arguments := by
  simp only [references, allReferences, nodes_eq t, List.mem_filter, List.mem_map, List.mem_cons,
    List.mem_flatMap, Bool.not_eq_true', decide_eq_true_eq]
  refine ⟨?_, ?_⟩
  · rintro ⟨⟨u, ⟨rfl | ⟨v, hv, hu⟩, hw⟩, rfl⟩, hp⟩
    · exact .inl ⟨rfl, hp⟩
    · exact .inr ⟨v, hv, ⟨u, ⟨hu, hw⟩, rfl⟩, hp⟩
  · rintro (⟨rfl, hp⟩ | ⟨v, hv, ⟨u, ⟨hu, hw⟩, rfl⟩, hp⟩)
    · exact ⟨⟨t, ⟨.inl rfl, h⟩, rfl⟩, hp⟩
    · exact ⟨⟨u, ⟨.inr ⟨v, hv, hu⟩, hw⟩, rfl⟩, hp⟩

end DataType

open DataType Extraction

/-- The session has taken up the given names and no others. -/
def Noted (s : Session) (names : List String) (s' : Session) : Prop :=
  ∀ n, n ∈ s'.referenced ↔ n ∈ s.referenced ∨ n ∈ names

namespace Noted

theorem refl (s : Session) : Noted s [] s := by
  intro n
  simp

theorem trans {s s₁ s₂ : Session} {a b : List String} (h₁ : Noted s a s₁) (h₂ : Noted s₁ b s₂) :
    Noted s (a ++ b) s₂ := by
  intro n
  rw [h₂ n, h₁ n, List.mem_append, or_assoc]

theorem congr {s s' : Session} {a b : List String} (h : Noted s a s') (hab : ∀ n, n ∈ a ↔ n ∈ b) :
    Noted s b s' := by
  intro n
  rw [h n, hab n]

end Noted

theorem noted_refer (name : String) (s : Session) :
    Noted s (if isPrimitiveName name then [] else [name]) (s.refer name) := by
  intro n
  unfold Session.refer
  by_cases hp : isPrimitiveName name
  · simp [hp]
  · by_cases hc : name ∈ s.referenced
    · simp only [hp, Bool.false_or, List.contains_iff_mem, hc, if_true, Bool.false_eq_true, if_false,
        List.mem_singleton]
      refine ⟨?_, ?_⟩
      · exact .inl
      · rintro (h | rfl)
        · exact h
        · exact hc
    · simp [hp, hc, or_comm]

/-- Every run that succeeds takes up the names in its result. -/
def Notes {α : Type} (x : Extraction α) (names : α → List String) : Prop :=
  ∀ ⦃s a s'⦄, Gives x s a s' → Noted s (names a) s'

/-- A run that takes up no name. -/
theorem notes_none {α : Type} {x : Extraction α} (h : ∀ ⦃s a s'⦄, Gives x s a s' → s'.referenced = s.referenced) :
    Notes x fun _ => [] := by
  intro s a s' hx n
  rw [h hx]
  simp

/-- What comes after `x` may only rearrange the names. -/
theorem Notes.map {α β : Type} {x : Extraction α} {f : α → β} {a : α → List String} {b : β → List String}
    (h : Notes x a) (hf : ∀ v n, n ∈ a v ↔ n ∈ b (f v)) : Notes (do return f (← x)) b := by
  intro s _ s' hx
  obtain ⟨v, s₁, hv, hp⟩ := gives_bind.mp hx
  obtain ⟨rfl, rfl⟩ := gives_pure.mp hp
  exact (h hv).congr (hf v)

theorem notes_mapM {α β : Type} {f : α → Extraction β} {names : β → List String}
    (hf : ∀ a, Notes (f a) names) (as : List α) : Notes (as.mapM f) (·.flatMap names) := by
  induction as with
  | nil =>
    intro s bs s' h
    obtain ⟨rfl, rfl⟩ := gives_mapM_nil.mp h
    exact .refl s
  | cons a as ih =>
    intro s bs s' h
    obtain ⟨b, bs', s₁, hb, hbs, rfl⟩ := gives_mapM_cons.mp h
    exact (hf a hb).trans (ih hbs)

namespace Resolution

theorem notes_enter {limit : Int} {ctx : Context} {depth : Nat} {sig : Signature} :
    Notes (enter limit ctx depth sig) fun name => if isPrimitiveName name then [] else [name] := by
  intro s name s' h
  obtain ⟨-, -, rfl⟩ := gives_enter.mp h
  exact noted_refer name s

/-- A type that is entered under a name takes up this name and those of its arguments. -/
theorem noted_dataType {s s₁ s₂ : Session} {name : String} {dims : Nat} {arguments : List DataType}
    (h₁ : Noted s (if isPrimitiveName name then [] else [name]) s₁)
    (h₂ : Noted s₁ (allReferences arguments) s₂) :
    Noted s (references ⟨name, dims, arguments, none⟩) s₂ := by
  apply (h₁.trans h₂).congr
  intro n
  rw [mem_references (by simp), List.mem_append]
  by_cases hp : isPrimitiveName name
  · simp only [hp, if_true, List.not_mem_nil, false_or]
    refine ⟨?_, ?_⟩
    · exact .inr
    · rintro (⟨rfl, h⟩ | h)
      · simp [hp] at h
      · exact h
  · simp only [hp, Bool.false_eq_true, if_false, List.mem_singleton]
    refine ⟨?_, ?_⟩
    · rintro (rfl | h)
      · exact .inl ⟨rfl, by simpa using hp⟩
      · exact .inr h
    · rintro (⟨rfl, -⟩ | h)
      · exact .inl rfl
      · exact .inr h

/-- A bound takes up the same names under any wildcard but `?`. -/
theorem references_bound {t : DataType} {w : Option Wildcard} (ht : t.wildcard = none)
    (hw : w ≠ some .unbounded) (n : String) :
    n ∈ references { t with wildcard := w } ↔ n ∈ t.references := by
  rw [mem_references hw, mem_references (by simp [ht])]

/-- The resolution of a type, which bears no wildcard of its own. -/
def ResolvesTypes (x : Extraction DataType) : Prop :=
  ∀ ⦃s t s'⦄, Gives x s t s' → t.wildcard = none ∧ Noted s t.references s'

theorem ResolvesTypes.notes {x : Extraction DataType} (h : ResolvesTypes x) : Notes x references := by
  intro s t s' hx
  exact (h hx).2

theorem ResolvesTypes.bound {x : Extraction DataType} (h : ResolvesTypes x) {w : Option Wildcard}
    (hw : w ≠ some .unbounded) : Notes (do return { ← x with wildcard := w }) references := by
  intro s _ s' hx
  obtain ⟨t, s₁, ht, hp⟩ := gives_bind.mp hx
  obtain ⟨rfl, rfl⟩ := gives_pure.mp hp
  obtain ⟨hnone, hn⟩ := h ht
  exact hn.congr fun n => (references_bound hnone hw n).symm

/-- A type whose arguments are given by `x`. -/
theorem resolvesTypes_entered {limit : Int} {ctx : Context} {depth : Nat} {sig : Signature} {dims : Nat}
    {x : Extraction (List DataType)} (hx : Notes x allReferences) :
    ResolvesTypes (do
      let name ← enter limit ctx depth sig
      let arguments ← x
      return ⟨name, dims, arguments, none⟩) := by
  intro s t s' h
  obtain ⟨name, s₁, hn, h⟩ := gives_bind.mp h
  obtain ⟨arguments, s₂, ha, hp⟩ := gives_bind.mp h
  obtain ⟨rfl, rfl⟩ := gives_pure.mp hp
  exact ⟨rfl, noted_dataType (notes_enter hn) (hx ha)⟩

theorem resolvesTypes_simple {limit : Int} {ctx : Context} {depth : Nat} {sig : Signature} {dims : Nat} :
    ResolvesTypes (do
      let name ← enter limit ctx depth sig
      return ⟨name, dims, [], none⟩) := by
  intro s t s' h
  obtain ⟨name, s₁, hn, hp⟩ := gives_bind.mp h
  obtain ⟨rfl, rfl⟩ := gives_pure.mp hp
  exact ⟨rfl, noted_dataType (notes_enter hn) (.refl s₁)⟩

mutual

theorem resolvesTypes_resolveType (limit : Int) (ctx : Context) (depth : Nat) :
    (t : Signature.TypeSig) → ResolvesTypes (resolveType limit ctx depth t)
  | .primitive _ _ => resolvesTypes_simple
  | .typeVariable _ _ => resolvesTypes_simple
  | .reference _ _ path => resolvesTypes_entered (notes_resolvePath limit ctx depth path)

theorem notes_resolvePath (limit : Int) (ctx : Context) (depth : Nat) :
    (path : Signature.ClassPath) → Notes (resolvePath limit ctx depth path) allReferences
  | .last _ arguments => notes_resolveArguments limit ctx depth arguments
  | .outer _ _ inner => notes_resolvePath limit ctx depth inner

theorem notes_resolveArguments (limit : Int) (ctx : Context) (depth : Nat) :
    (as : List Signature.Argument) → Notes (resolveArguments limit ctx depth as) allReferences
  | [] => by
    intro s ts s' h
    obtain ⟨rfl, rfl⟩ := gives_pure.mp h
    exact .refl s
  | a :: as => by
    intro s ts s' h
    obtain ⟨t, s₁, ht, h⟩ := gives_bind.mp h
    obtain ⟨ts, s₂, hts, hp⟩ := gives_bind.mp h
    obtain ⟨rfl, rfl⟩ := gives_pure.mp hp
    exact (notes_resolveArgument limit ctx depth a ht).trans
      (notes_resolveArguments limit ctx depth as hts)

theorem notes_resolveArgument (limit : Int) (ctx : Context) (depth : Nat) :
    (a : Signature.Argument) → Notes (resolveArgument limit ctx depth a) references
  | .unbounded => by
    intro s t s' h
    obtain ⟨rfl, rfl⟩ := gives_pure.mp h
    exact .refl s
  | .exactly t => (resolvesTypes_resolveType limit ctx (depth + 1) t).notes
  | .upper t => (resolvesTypes_resolveType limit ctx (depth + 1) t).bound (by simp)
  | .lower t => (resolvesTypes_resolveType limit ctx (depth + 1) t).bound (by simp)

end

theorem notes_resolve (limit : Int) (ctx : Context) (text : String) :
    Notes (resolve limit ctx text) references := by
  intro s t s' h
  unfold resolve at h
  split at h
  · obtain ⟨_, _, h, -⟩ := gives_bind.mp h
    exact absurd h gives_throw
  · obtain ⟨sig, s₁, hs, h⟩ := gives_bind.mp h
    obtain ⟨-, rfl⟩ := gives_except.mp hs
    cases sig with
    | void => exact resolvesTypes_simple.notes h
    | type t => exact (resolvesTypes_resolveType limit ctx 0 t).notes h

theorem notes_returnType (limit : Int) (ctx : Context) (m : MethodDecl) :
    Notes (returnType limit ctx m) fun t => allReferences t.toList := by
  intro s t s' h
  unfold returnType at h
  split at h
  · obtain ⟨rfl, rfl⟩ := gives_pure.mp h
    exact .refl s
  · obtain ⟨sig, s₁, hs, h⟩ := gives_bind.mp h
    obtain ⟨-, rfl⟩ := gives_except.mp hs
    split at h
    · obtain ⟨rfl, rfl⟩ := gives_pure.mp h
      exact .refl s
    · refine (notes_resolve limit ctx m.returns).map (b := fun t => allReferences t.toList) (fun t n => ?_) h
      simp [allReferences]

theorem notes_fieldAttribute (limit : Int) (ctx : Context) (f : FieldDecl) :
    Notes (fieldAttribute limit ctx f) (·.dataType.references) :=
  (notes_resolve limit ctx f.signature).map fun _ _ => Iff.rfl

theorem notes_parameter (limit : Int) (ctx : Context) (p : ParameterDecl) :
    Notes (parameter limit ctx p) (·.dataType.references) :=
  (notes_resolve limit ctx (parameterSignature p)).map fun _ _ => Iff.rfl

theorem notes_typeParameter (limit : Int) (ctx : Context) (p : TypeParameterDecl) :
    Notes (typeParameter limit ctx p) fun p => allReferences p.dataTypes :=
  (notes_mapM (notes_resolve limit ctx) p.bounds).map fun _ _ => Iff.rfl

end Resolution

def Variant.references : Variant → List String
  | .ofClass _ _ superclass => allReferences superclass.toList
  | .ofInterface => []
  | .ofEnum _ => []

def Method.references (m : Method) : List String := allReferences m.dataTypes

def Entry.references (e : Entry) : List String := allReferences e.dataTypes

namespace Classifier

theorem notes_find (p : Provider) (name : String) : Notes (find p name) fun _ => [] := by
  apply notes_none
  intro s d s' h
  obtain ⟨-, rfl⟩ := gives_find.mp h
  rfl

theorem notes_lineage (c : Classifier) (steps : Nat) (d : Declaration) :
    Notes (c.lineage steps d) fun _ => [] := by
  induction steps generalizing d with
  | zero =>
    intro s r s' h
    obtain ⟨rfl, rfl⟩ := gives_pure.mp h
    exact .refl s
  | succ steps ih =>
    intro s r s' h
    unfold lineage at h
    split at h
    · obtain ⟨rfl, rfl⟩ := gives_pure.mp h
      exact .refl s
    · obtain ⟨name, s₁, hn, h⟩ := gives_bind.mp h
      obtain ⟨-, rfl⟩ := gives_except.mp hn
      split at h
      · obtain ⟨rfl, rfl⟩ := gives_pure.mp h
        exact .refl s
      · obtain ⟨found, s₂, hf, h⟩ := gives_bind.mp h
        cases found with
        | none =>
          obtain ⟨rfl, rfl⟩ := gives_pure.mp h
          exact notes_find c.provider name hf
        | some d' => exact (notes_find c.provider name hf).trans (ih d' h)

theorem notes_isThrowable (c : Classifier) (d : Declaration) : Notes (c.isThrowable d) fun _ => [] := by
  intro s r s' h
  obtain ⟨found, s₁, hl, h⟩ := gives_bind.mp h
  cases found with
  | none => exact absurd h gives_throw
  | some found =>
    obtain ⟨-, rfl⟩ := gives_pure.mp h
    exact notes_lineage c _ d hl

theorem notes_variant (c : Classifier) (d : Declaration) : Notes (c.variant d) Variant.references := by
  intro s v s' h
  unfold variant at h
  split at h
  · obtain ⟨isThrowable, s₁, ht, h⟩ := gives_bind.mp h
    obtain ⟨superclass, s₂, hs, hp⟩ := gives_bind.mp h
    obtain ⟨rfl, rfl⟩ := gives_pure.mp hp
    apply (notes_isThrowable c d ht).trans
    rcases gives_option_mapM.mp hs with ⟨-, rfl, rfl⟩ | ⟨text, t, -, rfl, hr⟩
    · exact .refl s₁
    · refine (Resolution.notes_resolve _ _ text hr).congr fun n => ?_
      change _ ↔ n ∈ allReferences [t]
      simp [allReferences]
  · obtain ⟨rfl, rfl⟩ := gives_pure.mp h
    exact .refl s
  · obtain ⟨rfl, rfl⟩ := gives_pure.mp h
    exact .refl s
  · exact absurd h gives_throw

theorem notes_method (c : Classifier) (d : Declaration) (m : MethodDecl) :
    Notes (c.method d m) Method.references := by
  intro s r s' h
  obtain ⟨returnType, s₁, hr, h⟩ := gives_bind.mp h
  obtain ⟨typeParameters, s₂, ht, h⟩ := gives_bind.mp h
  obtain ⟨parameters, s₃, hp, h⟩ := gives_bind.mp h
  obtain ⟨throws, s₄, hx, h⟩ := gives_bind.mp h
  obtain ⟨rfl, rfl⟩ := gives_pure.mp h
  have noted := (((Resolution.notes_returnType _ _ m hr).trans
    (notes_mapM (Resolution.notes_typeParameter _ _) _ ht)).trans
    (notes_mapM (Resolution.notes_parameter _ _) _ hp)).trans
    (notes_mapM (Resolution.notes_resolve _ _) _ hx)
  refine noted.congr fun n => ?_
  simp [Method.references, Method.dataTypes, allReferences, List.flatMap_append, List.flatMap_assoc,
    List.flatMap_map]

/-- Classification takes up exactly the names that the entry refers to. -/
theorem notes_classify (c : Classifier) (d : Declaration) : Notes (c.classify d) Entry.references := by
  intro s e s' h
  obtain ⟨variant, typeParameters, attributes, methods, interfaces, s₁, s₂, s₃, s₄, hv, ht, ha, hm, hi, rfl⟩ :=
    gives_classify.mp h
  have noted := ((((notes_variant c d hv).trans
    (notes_mapM (Resolution.notes_typeParameter _ _) _ ht)).trans
    (notes_mapM (Resolution.notes_fieldAttribute _ _) _ ha)).trans
    (notes_mapM (notes_method c d) _ hm)).trans
    (notes_mapM (Resolution.notes_resolve _ _) _ hi)
  refine noted.congr fun n => ?_
  have hs : variant.references = allReferences
      (Entry.superclass? ⟨d.name, d.outer, typeParameters, interfaces, attributes, methods, variant⟩).toList := by
    cases variant <;> rfl
  simp [Entry.references, Entry.dataTypes, hs, allReferences, Method.references, List.flatMap_append,
    List.flatMap_assoc, List.flatMap_map]

end Classifier
end TypeAtlas
