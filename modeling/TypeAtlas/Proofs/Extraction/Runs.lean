import TypeAtlas.Extraction.Project
import TypeAtlas.Proofs.Runs

/-! Runs of an extraction that succeed: what the provider is asked for, how the members of a declaration
are added, and what the classification of a declaration consists of. -/

namespace TypeAtlas
namespace Extraction

variable {α β : Type} {s s' : Session}

/-- Items are collected up to the end exactly in a run over all of them. -/
theorem collect_eq_iff {f : α → Extraction β} {as : List α} {bs : List β} {s : Session} :
    ((collect f as).run s).run = (⟨bs, none⟩, s') ↔ Gives (as.mapM f) s bs s' := by
  induction as generalizing bs s with
  | nil =>
    rw [gives_mapM_nil]
    simp [collect, eq_comm]
  | cons a as ih =>
    rw [gives_mapM_cons]
    simp only [collect, StateT.run_bind, Id.run_bind, Gives]
    rcases ((f a).run.run s).run with ⟨r, s₁⟩
    cases r with
    | error e => simp
    | ok b =>
      simp only [StateT.run_bind, Id.run_bind]
      refine ⟨?_, ?_⟩
      · intro h
        rcases hbs : ((collect f as).run s₁).run with ⟨⟨done, stopped⟩, s₂⟩
        rw [hbs] at h
        cases h
        exact ⟨b, done, s₁, rfl, ih.mp hbs, rfl⟩
      · rintro ⟨b', bs', s₂, hb, hbs, rfl⟩
        cases hb
        rw [ih.mpr hbs]
        rfl

end Extraction

open Extraction

namespace Resolution

variable {limit : Int} {ctx : Context} {depth : Nat} {sig : Signature} {name : String} {s s' : Session}

/-- A name is entered within the limit, as the context has it, and noted. -/
theorem gives_enter : Gives (enter limit ctx depth sig) s name s' ↔
    depth ≤ limit ∧ fullName ctx sig.element.simpleName = .ok name ∧ s.refer name = s' := by
  unfold enter
  by_cases deep : limit < depth
  · rw [if_pos deep]
    refine iff_of_false (fun h => ?_) fun h => absurd deep (Int.not_lt.mpr h.1)
    obtain ⟨_, _, h, -⟩ := gives_bind.mp h
    exact absurd h gives_throw
  · rw [if_neg deep]
    refine ⟨fun h => ?_, fun ⟨_, named, noted⟩ => ?_⟩
    · obtain ⟨_, _, asked, h⟩ := gives_bind.mp h
      obtain ⟨named, rfl⟩ := gives_except.mp asked
      obtain ⟨_, _, noted, h⟩ := gives_bind.mp h
      obtain ⟨rfl, rfl⟩ := gives_pure.mp h
      exact ⟨Int.not_lt.mp deep, named, gives_modify.mp noted⟩
    · exact gives_bind.mpr ⟨name, s, gives_except.mpr ⟨named, rfl⟩,
        gives_bind.mpr ⟨(), _, gives_modify.mpr noted, gives_pure.mpr ⟨rfl, rfl⟩⟩⟩

theorem fullName_of_enter (h : Gives (enter limit ctx depth sig) s name s') :
    fullName ctx sig.element.simpleName = .ok name := (gives_enter.mp h).2.1

end Resolution

namespace Classifier

variable {c : Classifier} {d : Declaration} {s s' : Session}

theorem gives_find {p : Provider} {name : String} {found : Option Declaration} :
    Gives (find p name) s found s' ↔ p.find? name = found ∧ s.ask (.find name) = s' := by
  unfold find ask
  simp only [gives_bind, gives_modify, gives_pure]
  refine ⟨?_, ?_⟩
  · rintro ⟨_, _, rfl, rfl, rfl⟩
    exact ⟨rfl, rfl⟩
  · rintro ⟨rfl, rfl⟩
    exact ⟨(), _, rfl, rfl, rfl⟩

theorem gives_addMembers {e e' : Entry} :
    ((c.addMembers d e).run s).run = ((e', none), s') ↔
      ∃ attributes methods s₁,
        Gives ((d.fields.filter (!·.isConstant)).mapM
          (Resolution.fieldAttribute c.limit (c.provider.context d))) s attributes s₁ ∧
        Gives (d.methods.mapM (c.method d)) s₁ methods s' ∧
        e' = { e with attributes := e.attributes ++ attributes, methods := e.methods ++ methods } := by
  simp only [addMembers, addAttributes, addMethods, StateT.run_bind, Id.run_bind, StateT.run_pure,
    Id.run_pure, ← collect_eq_iff]
  rcases ((collect (Resolution.fieldAttribute c.limit (c.provider.context d))
    (d.fields.filter (!·.isConstant))).run s).run with ⟨⟨attributes, stopped⟩, s₁⟩
  cases stopped with
  | some error => simp
  | none =>
    simp only [StateT.run_bind, Id.run_bind, StateT.run_pure, Id.run_pure]
    rcases h : ((collect (c.method d) d.methods).run s₁).run with ⟨⟨methods, stopped⟩, s₂⟩
    refine ⟨?_, ?_⟩
    · intro h'
      cases h'
      exact ⟨attributes, methods, s₁, rfl, h, rfl⟩
    · rintro ⟨_, _, _, ha, hm, rfl⟩
      cases ha
      rw [h] at hm
      cases hm
      rfl

/-- What a declaration becomes: each of its parts is resolved in turn. -/
theorem gives_classify {e : Entry} :
    Gives (c.classify d) s e s' ↔
      ∃ variant typeParameters attributes methods interfaces s₁ s₂ s₃ s₄,
        Gives (c.variant d) s variant s₁ ∧
        Gives (d.typeParameters.mapM (Resolution.typeParameter c.limit (c.provider.context d)))
          s₁ typeParameters s₂ ∧
        Gives ((d.fields.filter (!·.isConstant)).mapM
          (Resolution.fieldAttribute c.limit (c.provider.context d))) s₂ attributes s₃ ∧
        Gives (d.methods.mapM (c.method d)) s₃ methods s₄ ∧
        Gives (d.interfaces.mapM (Resolution.resolve c.limit (c.provider.context d))) s₄ interfaces s' ∧
        e = ⟨d.name, d.outer, typeParameters, interfaces, attributes, methods, variant⟩ := by
  unfold classify
  refine ⟨?_, ?_⟩
  · intro h
    obtain ⟨variant, s₁, hv, h⟩ := gives_bind.mp h
    obtain ⟨typeParameters, s₂, ht, h⟩ := gives_bind.mp h
    obtain ⟨⟨e', stopped⟩, s₄, hl, h⟩ := gives_bind.mp h
    cases stopped with
    | some error => exact absurd h gives_throw
    | none =>
      obtain ⟨attributes, methods, s₃, ha, hm, rfl⟩ := gives_addMembers.mp (gives_lift.mp hl)
      obtain ⟨interfaces, s₅, hi, hp⟩ := gives_bind.mp h
      obtain ⟨rfl, rfl⟩ := gives_pure.mp hp
      exact ⟨variant, typeParameters, attributes, methods, interfaces, s₁, s₂, s₃, s₄, hv, ht, ha, hm, hi,
        rfl⟩
  · rintro ⟨variant, typeParameters, attributes, methods, interfaces, s₁, s₂, s₃, s₄, hv, ht, ha, hm, hi,
      rfl⟩
    refine gives_bind.mpr ⟨variant, s₁, hv, gives_bind.mpr ⟨typeParameters, s₂, ht, ?_⟩⟩
    refine gives_bind.mpr ⟨_, s₄, gives_lift.mpr (gives_addMembers.mpr
      ⟨attributes, methods, s₃, ha, hm, rfl⟩), ?_⟩
    exact gives_bind.mpr ⟨interfaces, s', hi, gives_pure.mpr ⟨rfl, rfl⟩⟩

end Classifier
end TypeAtlas
