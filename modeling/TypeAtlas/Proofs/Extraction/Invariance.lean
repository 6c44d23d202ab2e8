import TypeAtlas.Proofs.Extraction.Entries
import TypeAtlas.Proofs.Lists

/-! What a model does not depend on. Under a limit that is no lower an extraction that succeeds gives the
same model, and where the types of a project come in another order they stand in another order in the
model, and all else is the same. -/

namespace TypeAtlas

open Extraction

def Provider.declaring (p : Provider) (ds : List Declaration) : Provider := { p with types := .ok ds }

/-- The second settings differ from the first in no more than a limit that is no lower. -/
structure Settings.AtMost (a b : Settings) : Prop where
  withExternals_eq : b.withExternals = a.withExternals
  exceptionRoot_eq : b.exceptionRoot = a.exceptionRoot
  maxDepth_le : a.maxDepth ≤ b.maxDepth

theorem Settings.AtMost.refl (a : Settings) : a.AtMost a := ⟨rfl, rfl, Nat.le_refl _⟩

theorem Settings.AtMost.ofSettings {a b : Settings} (h : a.AtMost b) (p : Provider) (ds : List Declaration) :
    (Classifier.ofSettings p a).AtMost (Classifier.ofSettings (p.declaring ds) b) where
  find?_eq := rfl
  resolve_eq := rfl
  exceptionRoot_eq := h.exceptionRoot_eq
  limit_le := Int.ofNat_le.mpr h.maxDepth_le
  maxDepth_le := h.maxDepth_le

theorem Model.contains_perm {m k : Model} (types : k.types.Perm m.types) (externals : k.externals = m.externals)
    (n : String) : k.contains n = m.contains n := by
  unfold Model.contains
  rw [types.any_eq, externals]

theorem Model.internal?_perm {m k : Model} (types : k.types.Perm m.types) (nodup : (m.types.map (·.fullName)).Nodup)
    (n : String) : k.internal? n = m.internal? n := find?_key_perm types nodup n

namespace Extraction

variable {p : Provider} {a b : Settings} {m : Model}

/-- The types of a model are those of the project, and from entries of declarations that are the same but
for their order the same model comes but for this order. -/
theorem result_sustained (h : result a (some p) = .ok m) :
    ∃ ds, p.types = .ok ds ∧ List.Forall₂ (Classifier.ofSettings p a).Classified ds m.types ∧
      (m.types.map (·.fullName)).Nodup ∧
      ∀ {b ds' es}, a.AtMost b → List.Forall₂ (Classifier.ofSettings p a).Classified ds' es → es.Perm m.types →
        result b (some (p.declaring ds')) = .ok { m with types := es } := by
  obtain ⟨s', h⟩ := result_eq_ok.mp h
  obtain ⟨hp, ds, m₁, s₁, hds, hm, hx⟩ := gives_extract_iff.mp h
  obtain ⟨es₁, hes₁, nodup, -, rfl, noted⟩ := Classifier.classified_of_addTypes hm
  rw [List.nil_append] at hx
  have types : m.types = es₁ := by
    rcases hx with ⟨-, rfl, -⟩ | ⟨-, m₂, added, hx, rfl⟩
    · rfl
    · obtain ⟨stubs, rfl, -⟩ := Classifier.addStubs_sustained (.refl _) (fun _ => rfl) rfl hx
      rfl
  rw [types]
  refine ⟨ds, hds, hes₁, nodup, ?_⟩
  intro b ds' es hab hes perm
  have hc := hab.ofSettings p ds'
  obtain ⟨s₂, hs, noted'⟩ := Classifier.addTypes_of_classified (m := { project := p.name })
    (hes.imp fun _ _ he => he.mono hc) rfl ((perm.map _).nodup_iff.mpr nodup) (fun _ _ => rfl)
    (Session.ask .types (Session.ask .presence {}))
  rw [List.nil_append] at hs
  apply result_eq_ok.mpr
  rcases hx with ⟨hw, rfl, -⟩ | ⟨hw, m₂, added, hx, rfl⟩
  · exact ⟨s₂, gives_extract_iff.mpr ⟨hp, ds', _, s₂, rfl, hs, .inl ⟨hab.withExternals_eq.trans hw, rfl, rfl⟩⟩⟩
  · have names : sortedNames s₁.referenced = sortedNames s₂.referenced := by
      apply sortedNames_congr
      intro n
      rw [noted n, noted' n]
      exact or_congr Iff.rfl (perm.symm.flatMap_right _).mem_iff
    unfold Classifier.addExternals at hx
    rw [names] at hx
    have same : ∀ n, Model.contains { project := p.name, types := es } n =
        Model.contains { project := p.name, types := es₁ } n := Model.contains_perm perm rfl
    obtain ⟨stubs, rfl, -, runs⟩ := Classifier.addStubs_sustained hc same rfl hx
    obtain ⟨s₃, hs₃⟩ := runs s₂
    exact ⟨s₃, gives_extract_iff.mpr ⟨hp, ds', _, s₂, rfl, hs, .inr ⟨hab.withExternals_eq.trans hw, _, added, hs₃, rfl⟩⟩⟩

/-- A limit that is no lower changes nothing in a model. -/
theorem result_of_atMost {p : Option Provider} (hab : a.AtMost b) (h : result a p = .ok m) : result b p = .ok m := by
  cases p with
  | none => cases h
  | some p =>
    obtain ⟨ds, hds, hes, -, runs⟩ := result_sustained h
    have hp : p.declaring ds = p := by
      rw [Provider.declaring, ← hds]
    rw [← hp]
    exact runs hab hes (.refl _)

/-- A class with arguments in arguments, whose superclass has a superclass outside of the project. -/
def outerLink : Declaration :=
  { name := "A", superclass := some "QB;", fields := [⟨"m", "QM<QList<QC;>;>;", [], false⟩] }

def innerLink : Declaration := { name := "B", superclass := some "QC;" }

def chained : Provider :=
  Provider.ofIndex "chained" [outerLink, innerLink] (Index.ofList [outerLink, innerLink, { name := "C" }])

def narrow : Settings := { maxDepth := 3 }

theorem result_of_atMost_chained :
    narrow.AtMost {} ∧ ∃ m, result narrow (some chained) = .ok m ∧ result {} (some chained) = .ok m ∧
      m.externals.map (·.fullName) = ["C"] := by
  have hab : narrow.AtMost {} := ⟨rfl, rfl, by decide⟩
  have hx : (result narrow (some chained)).toOption.map (fun m => m.externals.map (·.fullName)) = some ["C"] := by cbv
  obtain ⟨m, h, hx⟩ := exists_ok_of_toOption hx
  exact ⟨hab, m, h, result_of_atMost hab h, hx⟩

/-! ### Another order -/

theorem result_declaring_perm {ds ds' : List Declaration} (hd : ds.Perm ds')
    (h : result a (some (p.declaring ds)) = .ok m) :
    ∃ es, es.Perm m.types ∧ (m.types.map (·.fullName)).Nodup ∧
      result a (some (p.declaring ds')) = .ok { m with types := es } := by
  obtain ⟨ds₁, hds, hes, nodup, runs⟩ := result_sustained h
  cases hds
  obtain ⟨es, hes', perm⟩ := List.perm_comp_forall₂ hd.symm hes
  exact ⟨es, perm, nodup, runs (.refl a) hes' perm⟩

/-- The order in which the types of a project come decides neither whether there is a model nor what is in
it: only its own types stand in this order. -/
theorem result_perm {ds ds' : List Declaration} (hd : ds.Perm ds') :
    ((∃ m, result a (some (p.declaring ds)) = .ok m) ↔ ∃ m, result a (some (p.declaring ds')) = .ok m) ∧
    ∀ m m', result a (some (p.declaring ds)) = .ok m → result a (some (p.declaring ds')) = .ok m' →
      (∀ n, m'.internal? n = m.internal? n) ∧ m'.types.Perm m.types ∧ m'.externals = m.externals ∧
        m'.project = m.project := by
  refine ⟨⟨?_, ?_⟩, ?_⟩
  · rintro ⟨m, h⟩
    obtain ⟨es, -, -, h'⟩ := result_declaring_perm hd h
    exact ⟨_, h'⟩
  · rintro ⟨m, h⟩
    obtain ⟨es, -, -, h'⟩ := result_declaring_perm hd.symm h
    exact ⟨_, h'⟩
  · intro m m' h h'
    obtain ⟨es, perm, nodup, h₁⟩ := result_declaring_perm hd h
    rw [h'] at h₁
    cases h₁
    exact ⟨Model.internal?_perm perm nodup, perm, rfl, rfl⟩

theorem result_perm_chained :
    [outerLink, innerLink].Perm [innerLink, outerLink] ∧
    ∃ m m', result {} (some (chained.declaring [outerLink, innerLink])) = .ok m ∧
      result {} (some (chained.declaring [innerLink, outerLink])) = .ok m' ∧
      m.types.map (·.fullName) = ["A", "B"] ∧ m'.internal? "A" = m.internal? "A" ∧ m'.externals = m.externals := by
  have hd : [outerLink, innerLink].Perm [innerLink, outerLink] := .swap _ _ _
  have hx : (result {} (some (chained.declaring [outerLink, innerLink]))).toOption.map
      (fun m => m.types.map (·.fullName)) = some ["A", "B"] := by cbv
  obtain ⟨m, h, hx⟩ := exists_ok_of_toOption hx
  have hperm := result_perm (p := chained) (a := {}) hd
  obtain ⟨m', h'⟩ := hperm.1.mp ⟨m, h⟩
  obtain ⟨internal, -, externals, -⟩ := hperm.2 m m' h h'
  exact ⟨hd, m, m', h, h', hx, internal "A", externals⟩

end Extraction
end TypeAtlas
