import TypeAtlas.Proofs.Extraction.Runs

/-! The names of supertypes in an entry. A resolved type has the qualified name of its signature, the name
by which the superclasses of a class are followed, so an entry has those of its declaration's superclass
and interfaces. -/

namespace TypeAtlas

open Extraction

variable {limit : Int} {ctx : Context} {s s' : Session}

namespace Resolution

theorem fullName_of_resolveType {depth : Nat} {sig : Signature.TypeSig} {t : DataType}
    (h : Gives (resolveType limit ctx depth sig) s t s') :
    fullName ctx (Signature.type sig).element.simpleName = .ok t.fullName := by
  cases sig with
  | primitive dims p =>
    obtain ⟨name, s₁, hn, hp⟩ := gives_bind.mp h
    obtain ⟨rfl, -⟩ := gives_pure.mp hp
    exact fullName_of_enter hn
  | typeVariable dims x =>
    obtain ⟨name, s₁, hn, hp⟩ := gives_bind.mp h
    obtain ⟨rfl, -⟩ := gives_pure.mp hp
    exact fullName_of_enter hn
  | reference dims origin path =>
    obtain ⟨name, s₁, hn, h⟩ := gives_bind.mp h
    obtain ⟨arguments, s₂, -, hp⟩ := gives_bind.mp h
    obtain ⟨rfl, -⟩ := gives_pure.mp hp
    exact fullName_of_enter hn

theorem qualifiedName_of_resolve {w : String} {t : DataType} (h : Gives (resolve limit ctx w) s t s') :
    qualifiedName ctx w = .ok t.fullName := by
  unfold resolve at h
  split at h
  · obtain ⟨_, _, h, -⟩ := gives_bind.mp h
    exact absurd h gives_throw
  · obtain ⟨sig, s₁, hs, h⟩ := gives_bind.mp h
    unfold qualifiedName
    rw [(gives_except.mp hs).1]
    cases sig with
    | void =>
      obtain ⟨name, s₂, hn, hp⟩ := gives_bind.mp h
      obtain ⟨rfl, -⟩ := gives_pure.mp hp
      exact fullName_of_enter hn
    | type t => exact fullName_of_resolveType h

theorem qualifiedNames_of_resolve {ws : List String} {ts : List DataType}
    (h : Gives (ws.mapM (resolve limit ctx)) s ts s') :
    ws.mapM (qualifiedName ctx) = .ok (ts.map (·.fullName)) := by
  induction ws generalizing s ts with
  | nil =>
    obtain ⟨rfl, -⟩ := gives_mapM_nil.mp h
    rfl
  | cons w ws ih =>
    obtain ⟨t, ts', s₁, ht, hts, rfl⟩ := gives_mapM_cons.mp h
    rw [List.mapM_cons, qualifiedName_of_resolve ht, ih hts]
    rfl

end Resolution

namespace Classifier

open Resolution

variable (c : Classifier) {d : Declaration} {e : Entry}

theorem superclass_of_classify (hk : d.kind = .known .classType) (h : Gives (c.classify d) s e s') :
    d.superclass.mapM (qualifiedName (c.provider.context d)) = .ok (e.superclass?.map (·.fullName)) := by
  obtain ⟨variant, _, _, _, _, s₁, _, _, _, hv, -, -, -, -, rfl⟩ := gives_classify.mp h
  unfold Classifier.variant at hv
  rw [hk] at hv
  obtain ⟨isThrowable, s₂, -, hv⟩ := gives_bind.mp hv
  obtain ⟨superclass, s₃, hs, hp⟩ := gives_bind.mp hv
  obtain ⟨rfl, -⟩ := gives_pure.mp hp
  rcases gives_option_mapM.mp hs with ⟨hd, rfl, -⟩ | ⟨w, t, hd, rfl, ht⟩
  · rw [hd]
    rfl
  · rw [hd, Option.mapM_some, qualifiedName_of_resolve ht]
    rfl

theorem interfaces_of_classify (h : Gives (c.classify d) s e s') :
    d.interfaces.mapM (qualifiedName (c.provider.context d)) = .ok (e.interfaces.map (·.fullName)) := by
  obtain ⟨_, _, _, _, interfaces, _, _, _, _, -, -, -, -, hi, rfl⟩ := gives_classify.mp h
  exact qualifiedNames_of_resolve hi

end Classifier
end TypeAtlas
