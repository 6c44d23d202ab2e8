import TypeAtlas.Proofs.Extraction.Closure
import TypeAtlas.Proofs.Extraction.Limits

/-! The entries of a model and the declarations they come from. A declaration becomes the same entry in
every session, so a run over declarations that succeeds can be put together from their entries alone:
in another order, or under limits that are no lower. -/

namespace TypeAtlas

theorem sortedNames_congr {a b : List String} (h : ∀ n, n ∈ a ↔ n ∈ b) : sortedNames a = sortedNames b := by
  apply (pairwise_sortedNames a).eq_of_mem_iff (pairwise_sortedNames b)
  intro n
  rw [mem_sortedNames, mem_sortedNames, h n]

open Extraction

namespace Classifier

variable {c c' : Classifier} {s s' : Session} {d : Declaration} {e : Entry}

namespace Classified

theorem gives (h : c.Classified d e) (s : Session) : ∃ s', Gives (c.classify d) s e s' := by
  obtain ⟨s₁, s₂, he⟩ := h
  exact sustained_classify (.refl c) d he s

theorem mono (h : c.Classified d e) (hc : c.AtMost c') : c'.Classified d e := by
  obtain ⟨s₁, s₂, he⟩ := h
  exact ⟨s₁, sustained_classify hc d he s₁⟩

end Classified

/-! ### The types of the project -/

theorem addTypes_of_classified {ds : List Declaration} {es : List Entry} (h : List.Forall₂ c.Classified ds es)
    {m : Model} (unfrozen : m.isFrozen = false) (nodup : (es.map (·.fullName)).Nodup)
    (new : ∀ e ∈ es, m.contains e.fullName = false) (s : Session) :
    ∃ s', Gives (c.addTypes ds m) s { m with types := m.types ++ es } s' ∧
      Noted s (es.flatMap Entry.references) s' := by
  induction h generalizing m s with
  | nil => exact ⟨s, gives_pure.mpr ⟨by simp, rfl⟩, .refl s⟩
  | @cons d e ds es he hes ih =>
    rw [List.map_cons, List.nodup_cons] at nodup
    obtain ⟨s₁, he⟩ := he.gives s
    have hadd : m.add e = .ok { m with types := m.types ++ [e] } :=
      Model.add_eq_ok.mpr ⟨unfrozen, new e List.mem_cons_self, rfl⟩
    have news : ∀ f ∈ es, Model.contains { m with types := m.types ++ [e] } f.fullName = false := by
      intro f hf
      rw [Model.contains_append_type, new f (List.mem_cons_of_mem e hf), Bool.false_or, beq_eq_false_iff_ne]
      intro name
      exact nodup.1 (name ▸ List.mem_map_of_mem hf)
    obtain ⟨s₂, hs, hn⟩ := ih (m := { m with types := m.types ++ [e] }) unfrozen nodup.2 news s₁
    rw [List.append_assoc] at hs
    refine ⟨s₂, ?_, (notes_classify c d he).trans hn⟩
    exact gives_bind.mpr ⟨e, s₁, he, gives_bind.mpr ⟨_, s₁, gives_except.mpr ⟨hadd, rfl⟩, hs⟩⟩

/-! ### The types from elsewhere -/

theorem addStubs_of_skip {n : String} {m : Model} (h : m.contains n = true ∨ c.provider.find? n = none)
    (names : List String) (s : Session) :
    ∃ s₁, s₁.referenced = s.referenced ∧
      ((c.addStubs (n :: names) m).run s).run = ((c.addStubs names m).run s₁).run := by
  rw [addStubs]
  by_cases hc : m.contains n = true
  · exact ⟨s, rfl, by rw [if_pos hc]⟩
  · have unknown := h.resolve_left hc
    have hstub : Gives (c.stub? n) s none (s.ask (.find n)) :=
      gives_bind.mpr ⟨none, _, gives_find.mpr ⟨unknown, rfl⟩, gives_pure.mpr ⟨rfl, rfl⟩⟩
    unfold Gives at hstub
    exact ⟨s.ask (.find n), rfl, by simp only [if_neg hc, StateT.run_bind, Id.run_bind, hstub]⟩

theorem addStubs_of_stub {n : String} {names : List String} {m m' : Model} {added : Nat} {s₁ : Session}
    (hc : m.contains n = false) (known : c.provider.find? n = some d)
    (he : Gives (c.classify d) (s.ask (.find n)) e s₁) (unfrozen : m.isFrozen = false)
    (new : m.contains e.fullName = false)
    (rest : ((c.addStubs names { m with externals := m.externals ++ [e] }).run s₁).run = ((m', .ok added), s')) :
    ((c.addStubs (n :: names) m).run s).run = ((m', .ok (added + 1)), s') := by
  have hstub : Gives (c.stub? n) s (some e) s₁ :=
    gives_bind.mpr ⟨some d, _, gives_find.mpr ⟨known, rfl⟩, gives_bind.mpr ⟨e, s₁, he, gives_pure.mpr ⟨rfl, rfl⟩⟩⟩
  have hadd : m.addExternal e = .ok { m with externals := m.externals ++ [e] } :=
    Model.addExternal_eq_ok.mpr ⟨unfrozen, new, rfl⟩
  unfold Gives at hstub
  rw [addStubs, if_neg (by simp [hc])]
  simp only [StateT.run_bind, Id.run_bind, hstub, hadd, rest]
  rfl

/-- Stubs that are added to one model can be added to any with the same names. -/
theorem addStubs_sustained (hc : c.AtMost c') {names : List String} {m k m' : Model} {added : Nat}
    (same : ∀ n, k.contains n = m.contains n) (unfrozen : k.isFrozen = false)
    (h : ((c.addStubs names m).run s).run = ((m', .ok added), s')) :
    ∃ es, m' = { m with externals := m.externals ++ es } ∧
      (∀ e ∈ es, ∃ n d, c.provider.find? n = some d ∧ c.Classified d e) ∧
      ∀ s₁, ∃ s₁', ((c'.addStubs names k).run s₁).run = (({ k with externals := k.externals ++ es }, .ok added), s₁') := by
  induction names generalizing m k s added with
  | nil =>
    cases h
    exact ⟨[], by simp, nofun, fun s₁ => ⟨s₁, by simp [addStubs]⟩⟩
  | cons n names ih =>
    rcases addStubs_cons h with ⟨hskip, s₂, h⟩ | ⟨hn, d, e, s₀, s₂, rest, hf, he, new, rfl, hrest⟩
    · obtain ⟨es, rfl, hes, runs⟩ := ih same unfrozen h
      refine ⟨es, rfl, hes, fun s₁ => ?_⟩
      rw [← same, ← hc.find?_eq] at hskip
      obtain ⟨s₃, -, hs⟩ := addStubs_of_skip hskip names s₁
      rw [hs]
      exact runs s₃
    · have he : c.Classified d e := ⟨s₀, s₂, he⟩
      have same' (n : String) : Model.contains { k with externals := k.externals ++ [e] } n =
          Model.contains { m with externals := m.externals ++ [e] } n := by
        rw [Model.contains_append_external, Model.contains_append_external, same]
      obtain ⟨es, rfl, hes, runs⟩ := ih (k := { k with externals := k.externals ++ [e] }) same' unfrozen hrest
      refine ⟨e :: es, by simp, ?_, fun s₁ => ?_⟩
      · intro f hf'
        rcases List.mem_cons.mp hf' with rfl | hf'
        · exact ⟨n, d, hf, he⟩
        · exact hes f hf'
      · obtain ⟨s₃, he'⟩ := (he.mono hc).gives (s₁.ask (.find n))
        obtain ⟨s₄, hs⟩ := runs s₃
        rw [List.append_assoc] at hs
        rw [← same] at hn new
        rw [← hc.find?_eq] at hf
        exact ⟨s₄, addStubs_of_stub hn hf he' unfrozen new hs⟩

end Classifier
end TypeAtlas
