import TypeAtlas.Proofs.Extraction.Runs

/-! Extraction under other limits and in other sessions. A limit only makes work fail, and no work reads
the session it has come to, so whatever a declaration becomes it becomes in every session and under
every limit that is no lower. -/

namespace TypeAtlas

open Extraction

namespace Resolution

variable {limit limit' : Int}

theorem sustained_enter (h : limit ≤ limit') (ctx : Context) (depth : Nat) (sig : Signature) :
    SustainedBy (enter limit ctx depth sig) (enter limit' ctx depth sig) := by
  unfold enter
  by_cases hd : limit < depth
  · rw [if_pos hd]
    exact .of_throw _ _ _
  · rw [if_neg hd, if_neg (by omega)]
    exact (SustainedBy.of_except _).bind fun name => (SustainedBy.of_modify _).bind fun _ => .of_pure name

mutual

theorem sustained_resolveType (h : limit ≤ limit') (ctx : Context) (depth : Nat) :
    (t : Signature.TypeSig) → SustainedBy (resolveType limit ctx depth t) (resolveType limit' ctx depth t)
  | .primitive _ _ => (sustained_enter h ctx depth _).bind fun _ => .of_pure _
  | .typeVariable _ _ => (sustained_enter h ctx depth _).bind fun _ => .of_pure _
  | .reference _ _ path => (sustained_enter h ctx depth _).bind fun _ =>
    (sustained_resolvePath h ctx depth path).bind fun _ => .of_pure _

theorem sustained_resolvePath (h : limit ≤ limit') (ctx : Context) (depth : Nat) :
    (path : Signature.ClassPath) → SustainedBy (resolvePath limit ctx depth path) (resolvePath limit' ctx depth path)
  | .last _ arguments => sustained_resolveArguments h ctx depth arguments
  | .outer _ _ inner => sustained_resolvePath h ctx depth inner

theorem sustained_resolveArguments (h : limit ≤ limit') (ctx : Context) (depth : Nat) :
    (as : List Signature.Argument) →
    SustainedBy (resolveArguments limit ctx depth as) (resolveArguments limit' ctx depth as)
  | [] => .of_pure []
  | a :: as => (sustained_resolveArgument h ctx depth a).bind fun _ =>
    (sustained_resolveArguments h ctx depth as).bind fun _ => .of_pure _

theorem sustained_resolveArgument (h : limit ≤ limit') (ctx : Context) (depth : Nat) :
    (a : Signature.Argument) → SustainedBy (resolveArgument limit ctx depth a) (resolveArgument limit' ctx depth a)
  | .unbounded => .of_pure _
  | .exactly t => sustained_resolveType h ctx (depth + 1) t
  | .upper t => (sustained_resolveType h ctx (depth + 1) t).bind fun _ => .of_pure _
  | .lower t => (sustained_resolveType h ctx (depth + 1) t).bind fun _ => .of_pure _

end

theorem sustained_resolve (h : limit ≤ limit') (ctx : Context) (text : String) :
    SustainedBy (resolve limit ctx text) (resolve limit' ctx text) := by
  unfold resolve
  by_cases hl : limit < 0
  · rw [if_pos hl]
    exact .of_throw _ _ _
  · rw [if_neg hl, if_neg (by omega)]
    refine (SustainedBy.of_except _).bind fun sig => ?_
    cases sig with
    | void => exact (sustained_enter h ctx 0 .void).bind fun _ => .of_pure _
    | type t => exact sustained_resolveType h ctx 0 t

theorem sustained_returnType (h : limit ≤ limit') (ctx : Context) (m : MethodDecl) :
    SustainedBy (returnType limit ctx m) (returnType limit' ctx m) := by
  unfold returnType
  split
  · exact .of_pure none
  · refine (SustainedBy.of_except _).bind fun sig => ?_
    split
    · exact .of_pure none
    · exact (sustained_resolve h ctx m.returns).bind fun t => .of_pure (some t)

theorem sustained_fieldAttribute (h : limit ≤ limit') (ctx : Context) (f : FieldDecl) :
    SustainedBy (fieldAttribute limit ctx f) (fieldAttribute limit' ctx f) :=
  (sustained_resolve h ctx f.signature).bind fun _ => .of_pure _

theorem sustained_parameter (h : limit ≤ limit') (ctx : Context) (p : ParameterDecl) :
    SustainedBy (parameter limit ctx p) (parameter limit' ctx p) :=
  (sustained_resolve h ctx (parameterSignature p)).bind fun _ => .of_pure _

theorem sustained_typeParameter (h : limit ≤ limit') (ctx : Context) (p : TypeParameterDecl) :
    SustainedBy (typeParameter limit ctx p) (typeParameter limit' ctx p) :=
  (SustainedBy.mapM (sustained_resolve h ctx) p.bounds).bind fun _ => .of_pure _

end Resolution

namespace Classifier

/-- The second classifier reads declarations as the first does, under limits that are no lower. -/
structure AtMost (c c' : Classifier) : Prop where
  find?_eq : c'.provider.find? = c.provider.find?
  resolve_eq : c'.provider.resolve = c.provider.resolve
  exceptionRoot_eq : c'.settings.exceptionRoot = c.settings.exceptionRoot
  limit_le : c.limit ≤ c'.limit
  maxDepth_le : c.settings.maxDepth ≤ c'.settings.maxDepth

theorem AtMost.refl (c : Classifier) : c.AtMost c := ⟨rfl, rfl, rfl, Int.le_refl _, Nat.le_refl _⟩

variable {c c' : Classifier} {s s' : Session} {d : Declaration}

namespace AtMost

theorem contextOf_eq (h : c.AtMost c') (scope : Option Scope) :
    c'.provider.contextOf scope = c.provider.contextOf scope := by
  unfold Provider.contextOf
  rw [h.resolve_eq]

theorem context_eq (h : c.AtMost c') (d : Declaration) : c'.provider.context d = c.provider.context d :=
  h.contextOf_eq d.scope

end AtMost

/-- The walk over the superclasses of a declaration comes to an end within so many steps, and `found` says
whether it ends at the exception root. -/
inductive Descends (c : Classifier) : (steps : Nat) → Declaration → (found : Bool) → Prop
  | top {n : Nat} {d : Declaration} (superclass : d.superclass = none) : Descends c (n + 1) d false
  | root {n : Nat} {d : Declaration} {w : String} (superclass : d.superclass = some w)
      (name : Resolution.qualifiedName (c.provider.context d) w = .ok c.settings.exceptionRoot) :
      Descends c (n + 1) d true
  | unknown {n : Nat} {d : Declaration} {w name : String} (superclass : d.superclass = some w)
      (name_eq : Resolution.qualifiedName (c.provider.context d) w = .ok name)
      (ne : name ≠ c.settings.exceptionRoot) (unknown : c.provider.find? name = none) :
      Descends c (n + 1) d false
  | up {n : Nat} {d d' : Declaration} {w name : String} {found : Bool} (superclass : d.superclass = some w)
      (name_eq : Resolution.qualifiedName (c.provider.context d) w = .ok name)
      (ne : name ≠ c.settings.exceptionRoot) (known : c.provider.find? name = some d')
      (rest : Descends c n d' found) : Descends c (n + 1) d found

theorem descends_of_lineage {n : Nat} {found : Bool} (h : Gives (c.lineage n d) s (some found) s') :
    c.Descends n d found := by
  induction n generalizing d s with
  | zero => cases (gives_pure.mp h).1
  | succ n ih =>
    rw [lineage] at h
    split at h
    · cases (gives_pure.mp h).1
      exact .top (by assumption)
    · obtain ⟨name, s₁, hn, h⟩ := gives_bind.mp h
      obtain ⟨name_eq, rfl⟩ := gives_except.mp hn
      split at h
      · rename_i root
        cases (gives_pure.mp h).1
        exact .root (by assumption) (root ▸ name_eq)
      · obtain ⟨found, s₂, hf, h⟩ := gives_bind.mp h
        obtain ⟨hf, -⟩ := gives_find.mp hf
        cases found with
        | none =>
          cases (gives_pure.mp h).1
          exact .unknown (by assumption) name_eq (by assumption) hf
        | some d' => exact .up (by assumption) name_eq (by assumption) hf (ih h)

theorem lineage_of_descends {n : Nat} {found : Bool} (h : c.Descends n d found) (s : Session) :
    ∃ s', Gives (c.lineage n d) s (some found) s' := by
  induction h generalizing s with
  | top superclass =>
    rw [lineage, superclass]
    exact ⟨s, gives_pure.mpr ⟨rfl, rfl⟩⟩
  | root superclass name =>
    rw [lineage, superclass]
    refine ⟨s, gives_bind.mpr ⟨_, s, gives_except.mpr ⟨name, rfl⟩, ?_⟩⟩
    rw [if_pos rfl]
    exact gives_pure.mpr ⟨rfl, rfl⟩
  | @unknown _ _ _ name superclass name_eq ne unknown =>
    rw [lineage, superclass]
    refine ⟨s.ask (.find name), gives_bind.mpr ⟨_, s, gives_except.mpr ⟨name_eq, rfl⟩, ?_⟩⟩
    rw [if_neg ne]
    exact gives_bind.mpr ⟨none, _, gives_find.mpr ⟨unknown, rfl⟩, gives_pure.mpr ⟨rfl, rfl⟩⟩
  | up superclass name_eq ne known rest ih =>
    obtain ⟨s', hs⟩ := ih (s.ask (.find _))
    rw [lineage, superclass]
    refine ⟨s', gives_bind.mpr ⟨_, s, gives_except.mpr ⟨name_eq, rfl⟩, ?_⟩⟩
    rw [if_neg ne]
    exact gives_bind.mpr ⟨some _, _, gives_find.mpr ⟨known, rfl⟩, hs⟩

/-- A walk that ends takes the same way under limits that are no lower. -/
theorem Descends.mono (h : c.AtMost c') {n n' : Nat} (hn : n ≤ n') {found : Bool} (hd : c.Descends n d found) :
    c'.Descends n' d found := by
  induction hd generalizing n' with
  | top superclass =>
    obtain ⟨k, rfl⟩ := Nat.exists_eq_add_of_le' (Nat.le_of_add_left_le hn)
    exact .top superclass
  | root superclass name =>
    obtain ⟨k, rfl⟩ := Nat.exists_eq_add_of_le' (Nat.le_of_add_left_le hn)
    exact .root superclass (by rw [h.context_eq, h.exceptionRoot_eq, name])
  | unknown superclass name_eq ne unknown =>
    obtain ⟨k, rfl⟩ := Nat.exists_eq_add_of_le' (Nat.le_of_add_left_le hn)
    exact .unknown superclass (by rw [h.context_eq, name_eq]) (h.exceptionRoot_eq ▸ ne) (h.find?_eq ▸ unknown)
  | up superclass name_eq ne known rest ih =>
    obtain ⟨k, rfl⟩ := Nat.exists_eq_add_of_le' (Nat.le_of_add_left_le hn)
    exact .up superclass (by rw [h.context_eq, name_eq]) (h.exceptionRoot_eq ▸ ne) (h.find?_eq ▸ known)
      (ih (Nat.le_of_succ_le_succ hn))

theorem gives_isThrowable {found : Bool} :
    (∃ s', Gives (c.isThrowable d) s found s') ↔ c.Descends c.settings.maxDepth d found := by
  unfold isThrowable
  refine ⟨?_, ?_⟩
  · rintro ⟨s', h⟩
    obtain ⟨r, s₁, hl, h⟩ := gives_bind.mp h
    cases r with
    | none => exact absurd h gives_throw
    | some r =>
      cases (gives_pure.mp h).1
      exact descends_of_lineage hl
  · intro h
    obtain ⟨s', hl⟩ := lineage_of_descends h s
    exact ⟨s', gives_bind.mpr ⟨some found, s', hl, gives_pure.mpr ⟨rfl, rfl⟩⟩⟩

/-! ### The entry of a declaration -/

theorem sustained_isThrowable (h : c.AtMost c') (d : Declaration) :
    SustainedBy (c.isThrowable d) (c'.isThrowable d) := by
  intro s found s' hg s₁
  exact gives_isThrowable.mpr ((gives_isThrowable.mp ⟨s', hg⟩).mono h h.maxDepth_le)

theorem sustained_variant (h : c.AtMost c') (d : Declaration) : SustainedBy (c.variant d) (c'.variant d) := by
  unfold variant
  split
  · refine (sustained_isThrowable h d).bind fun isThrowable => ?_
    rw [h.context_eq]
    exact (SustainedBy.option_mapM (Resolution.sustained_resolve h.limit_le _) d.superclass).bind fun _ => .of_pure _
  · exact .of_pure _
  · exact .of_pure _
  · intro s v s' hv
    exact absurd hv gives_throw

theorem sustained_method (h : c.AtMost c') (d : Declaration) (m : MethodDecl) :
    SustainedBy (c.method d m) (c'.method d m) := by
  unfold method Provider.methodContext
  rw [h.contextOf_eq]
  exact (Resolution.sustained_returnType h.limit_le _ m).bind fun _ =>
    (SustainedBy.mapM (Resolution.sustained_typeParameter h.limit_le _) _).bind fun _ =>
    (SustainedBy.mapM (Resolution.sustained_parameter h.limit_le _) _).bind fun _ =>
    (SustainedBy.mapM (Resolution.sustained_resolve h.limit_le _) _).bind fun _ => .of_pure _

/-- What a declaration becomes in some session, it becomes in all and under limits that are no lower. -/
theorem sustained_classify (h : c.AtMost c') (d : Declaration) : SustainedBy (c.classify d) (c'.classify d) := by
  intro s e s' he s₁
  obtain ⟨variant, typeParameters, attributes, methods, interfaces, _, _, _, _, hv, ht, ha, hm, hi, rfl⟩ :=
    gives_classify.mp he
  obtain ⟨s₂, hv⟩ := sustained_variant h d hv s₁
  obtain ⟨s₃, ht⟩ := SustainedBy.mapM (Resolution.sustained_typeParameter h.limit_le _) _ ht s₂
  obtain ⟨s₄, ha⟩ := SustainedBy.mapM (Resolution.sustained_fieldAttribute h.limit_le _) _ ha s₃
  obtain ⟨s₅, hm⟩ := SustainedBy.mapM (sustained_method h d) _ hm s₄
  obtain ⟨s₆, hi⟩ := SustainedBy.mapM (Resolution.sustained_resolve h.limit_le _) _ hi s₅
  rw [← h.context_eq] at ht ha hi
  exact ⟨s₆, gives_classify.mpr ⟨variant, typeParameters, attributes, methods, interfaces, s₂, s₃, s₄, s₅, hv, ht, ha,
    hm, hi, rfl⟩⟩

end Classifier
end TypeAtlas
