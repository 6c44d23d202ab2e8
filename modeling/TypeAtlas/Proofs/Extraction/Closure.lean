import Mathlib
import TypeAtlas.Proofs.Extraction.References
import TypeAtlas.Proofs.Model.Registry

/-! What an extraction puts into its model: the types of the project in their order, and in ascending
order of names a stub for every other type that one of them refers to and the provider knows. -/

namespace TypeAtlas

theorem nodup_eraseDups (names : List String) : names.eraseDups.Nodup := by
  induction h : names.length using Nat.strongRecOn generalizing names with
  | ind k ih =>
    cases names with
    | nil => simp
    | cons a names =>
      rw [List.eraseDups_cons, List.nodup_cons]
      refine ⟨?_, ?_⟩
      · simp [List.mem_eraseDups]
      · refine ih _ ?_ _ rfl
        have := List.length_filter_le (fun b => !b == a) names
        simp only [List.length_cons] at h
        omega

theorem mem_sortedNames {names : List String} {n : String} : n ∈ sortedNames names ↔ n ∈ names := by
  rw [sortedNames, List.mem_mergeSort, List.mem_eraseDups]

theorem nodup_sortedNames (names : List String) : (sortedNames names).Nodup :=
  (List.mergeSort_perm names.eraseDups _).symm.nodup (nodup_eraseDups names)

/-- Each name stands before all greater ones. -/
theorem pairwise_sortedNames (names : List String) : (sortedNames names).Pairwise (· < ·) := by
  have hle : (sortedNames names).Pairwise fun a b => decide (a ≤ b) = true :=
    List.pairwise_mergeSort (fun a b c => by simpa using String.le_trans)
      (fun a b => by simpa using String.le_total a b) _
  refine (hle.and (nodup_sortedNames names)).imp fun {a b} h => ?_
  have hab : a ≤ b := by simpa using h.1
  exact String.not_le.mp fun hba => h.2 (String.le_antisymm hab hba)

open Extraction

namespace Classifier

variable {c : Classifier} {s s' : Session} {d : Declaration} {e : Entry}

theorem fullName_of_classify (h : Gives (c.classify d) s e s') :
    e.fullName = d.name := by
  obtain ⟨_, _, _, _, _, _, _, _, _, _, _, _, _, _, rfl⟩ := gives_classify.mp h
  rfl

/-- The declaration becomes this entry. -/
def Classified (c : Classifier) (d : Declaration) (e : Entry) : Prop := ∃ s s', Gives (c.classify d) s e s'

namespace Classified

theorem fullName_eq (h : c.Classified d e) : e.fullName = d.name := by
  obtain ⟨s₁, s₂, he⟩ := h
  exact fullName_of_classify he

theorem outerType_eq (h : c.Classified d e) : e.outerType = d.outer := by
  obtain ⟨s₁, s₂, he⟩ := h
  obtain ⟨_, _, _, _, _, _, _, _, _, -, -, -, -, -, rfl⟩ := gives_classify.mp he
  rfl

theorem fullNames_eq {ds : List Declaration} {es : List Entry} (h : List.Forall₂ c.Classified ds es) :
    es.map (·.fullName) = ds.map (·.name) := by
  induction h with
  | nil => rfl
  | cons he _ ih => rw [List.map_cons, List.map_cons, he.fullName_eq, ih]

end Classified

/-- The types of a project become entries under names that are new, and the session takes up what they
refer to. -/
theorem classified_of_addTypes {ds : List Declaration} {m m' : Model} (h : Gives (c.addTypes ds m) s m' s') :
    ∃ es, List.Forall₂ c.Classified ds es ∧ (es.map (·.fullName)).Nodup ∧
      (∀ e ∈ es, m.contains e.fullName = false) ∧ m' = { m with types := m.types ++ es } ∧
      Noted s (es.flatMap Entry.references) s' := by
  induction ds generalizing m s with
  | nil =>
    obtain ⟨rfl, rfl⟩ := gives_pure.mp h
    exact ⟨[], .nil, List.nodup_nil, nofun, by simp, .refl s⟩
  | cons d ds ih =>
    obtain ⟨e, s₁, he, h⟩ := gives_bind.mp h
    obtain ⟨m₁, s₂, hm, h⟩ := gives_bind.mp h
    obtain ⟨hadd, rfl⟩ := gives_except.mp hm
    obtain ⟨-, new, rfl⟩ := Model.add_eq_ok.mp hadd
    obtain ⟨es, hes, nodup, news, rfl, hn⟩ := ih h
    simp only [Model.contains_append_type, Bool.or_eq_false_iff, beq_eq_false_iff_ne] at news
    refine ⟨e :: es, .cons ⟨s, s₁, he⟩ hes, ?_, ?_, by simp, (notes_classify c d he).trans hn⟩
    · rw [List.map_cons, List.nodup_cons]
      refine ⟨?_, nodup⟩
      intro hmem
      obtain ⟨f, hf, name⟩ := List.mem_map.mp hmem
      exact (news f hf).2 name.symm
    · intro f hf
      rcases List.mem_cons.mp hf with rfl | hf
      · exact new
      · exact (news f hf).1

/-- The entries of declarations come to the end of the project's types, and the session takes up
what they refer to. -/
theorem addTypes_entries {ds : List Declaration} {m m' : Model} (h : Gives (c.addTypes ds m) s m' s') :
    ∃ es, m' = { m with types := m.types ++ es } ∧ es.map (·.fullName) = ds.map (·.name) ∧
      Noted s (es.flatMap Entry.references) s' := by
  obtain ⟨es, hes, -, -, rfl, hn⟩ := classified_of_addTypes h
  exact ⟨es, rfl, Classified.fullNames_eq hes, hn⟩

theorem gives_stub? {name : String} {r : Option Entry} (h : Gives (c.stub? name) s r s') :
    (c.provider.find? name = none ∧ r = none) ∨
      ∃ d e s₁, c.provider.find? name = some d ∧ r = some e ∧ Gives (c.classify d) s₁ e s' := by
  obtain ⟨found, s₁, hf, h⟩ := gives_bind.mp h
  obtain ⟨known, rfl⟩ := gives_find.mp hf
  cases found with
  | none =>
    obtain ⟨rfl, rfl⟩ := gives_pure.mp h
    exact .inl ⟨known, rfl⟩
  | some d =>
    obtain ⟨e, s₂, he, hp⟩ := gives_bind.mp h
    obtain ⟨rfl, rfl⟩ := gives_pure.mp hp
    exact .inr ⟨d, e, _, known, rfl, he⟩

/-- What becomes of one name: it is passed over, or a stub is added for it. -/
theorem addStubs_cons {n : String} {names : List String} {m m' : Model} {added : Nat}
    (h : ((c.addStubs (n :: names) m).run s).run = ((m', .ok added), s')) :
    ((m.contains n = true ∨ c.provider.find? n = none) ∧
      ∃ s₁, ((c.addStubs names m).run s₁).run = ((m', .ok added), s')) ∨
    (m.contains n = false ∧ ∃ d e s₀ s₁ rest, c.provider.find? n = some d ∧
      Gives (c.classify d) s₀ e s₁ ∧ m.contains e.fullName = false ∧ added = rest + 1 ∧
      ((c.addStubs names { m with externals := m.externals ++ [e] }).run s₁).run = ((m', .ok rest), s')) := by
  unfold addStubs at h
  by_cases hc : m.contains n = true
  · rw [if_pos hc] at h
    exact .inl ⟨.inl hc, s, h⟩
  · rw [if_neg hc] at h
    simp only [StateT.run_bind, Id.run_bind] at h
    rcases hr : (((c.stub? n).run.run s).run) with ⟨r, s₁⟩
    rw [hr] at h
    rcases r with error | found
    · cases h
    · rcases gives_stub? hr with ⟨hf, rfl⟩ | ⟨d, e, s₀, hf, rfl, he⟩
      · exact .inl ⟨.inr hf, s₁, h⟩
      · dsimp only at h
        split at h
        · cases h
        · rename_i m₁ hadd
          obtain ⟨-, new, rfl⟩ := Model.addExternal_eq_ok.mp hadd
          simp only [StateT.run_bind, Id.run_bind] at h
          rcases hrest : ((c.addStubs names { m with externals := m.externals ++ [e] }).run s₁).run with
            ⟨⟨m₂, rest⟩, s₂⟩
          rw [hrest] at h
          rcases rest with error | rest
          · cases h
          · cases h
            exact .inr ⟨by simpa using hc, d, e, s₀, s₁, rest, hf, he, new, rfl, hrest⟩

/-- Stubs are added for the names that are new to the model and known to the provider, in their
order. -/
theorem addStubs_names (hp : ∀ n d, c.provider.find? n = some d → d.name = n) {names : List String}
    {m m' : Model} {added : Nat} (hnames : names.Nodup)
    (h : ((c.addStubs names m).run s).run = ((m', .ok added), s')) :
    ∃ es, m' = { m with externals := m.externals ++ es } ∧ added = es.length ∧
      es.map (·.fullName) = names.filter fun n => !m.contains n && (c.provider.find? n).isSome := by
  induction names generalizing m s added with
  | nil =>
    cases h
    exact ⟨[], by simp, rfl, rfl⟩
  | cons n names ih =>
    rw [List.nodup_cons] at hnames
    rcases addStubs_cons h with ⟨hskip, s₁, h⟩ | ⟨hc, d, e, s₀, s₁, rest, hf, he, -, rfl, hrest⟩
    · rw [List.filter_cons_of_neg (by rcases hskip with hc | hf <;> simp [*])]
      exact ih hnames.2 h
    · obtain ⟨es, rfl, rfl, hes⟩ := ih hnames.2 hrest
      have hname : e.fullName = n := (fullName_of_classify he).trans (hp n d hf)
      refine ⟨e :: es, by simp, rfl, ?_⟩
      rw [List.filter_cons_of_pos (by simp [hc, hf]), List.map_cons, hes, hname]
      congr 1
      apply List.filter_congr
      intro k hk
      have hne : n ≠ k := fun h => hnames.1 (h ▸ hk)
      rw [Model.contains_append_external, hname, beq_eq_false_iff_ne.mpr hne, Bool.or_false]

end Classifier

namespace Extraction

variable {p : Provider} {settings : Settings} {m : Model}

/-- An extraction goes over the types of the project and then, if it is asked to, over what they
refer to. -/
theorem gives_extract_iff {s s' : Session} :
    Gives (extract settings (some p)) s m s' ↔
      p.isPresent = true ∧ ∃ ds m₁ s₁, p.types = .ok ds ∧
        Gives ((Classifier.ofSettings p settings).addTypes ds { project := p.name })
          ((s.ask .presence).ask .types) m₁ s₁ ∧
        ((settings.withExternals = false ∧ m = m₁.freeze ∧ s₁ = s') ∨
          (settings.withExternals = true ∧ ∃ m₂ added,
            (((Classifier.ofSettings p settings).addExternals s₁.referenced m₁).run s₁).run =
              ((m₂, .ok added), s') ∧ m = m₂.freeze)) := by
  unfold extract ask
  refine ⟨?_, ?_⟩
  · intro h
    obtain ⟨_, s₂, hq, h⟩ := gives_bind.mp h
    obtain rfl := gives_modify.mp hq
    dsimp only at h
    by_cases hp : p.isPresent = true
    · simp only [hp, Bool.not_true, Bool.false_eq_true, if_false] at h
      obtain ⟨_, s₃, ht, h⟩ := gives_bind.mp h
      obtain rfl := gives_modify.mp ht
      obtain ⟨ds, s₄, htypes, h⟩ := gives_bind.mp h
      obtain ⟨hds, rfl⟩ := gives_except.mp htypes
      obtain ⟨m₁, s₁, hm, h⟩ := gives_bind.mp h
      refine ⟨hp, ds, m₁, s₁, hds, hm, ?_⟩
      split at h
      · rename_i hw
        obtain ⟨_, s₅, hg, h⟩ := gives_bind.mp h
        obtain ⟨rfl, rfl⟩ := gives_get.mp hg
        obtain ⟨⟨m₂, r⟩, s₆, hl, h⟩ := gives_bind.mp h
        cases r with
        | error e => exact absurd h gives_throw
        | ok added =>
          obtain ⟨rfl, rfl⟩ := gives_pure.mp h
          exact .inr ⟨hw, m₂, added, gives_lift.mp hl, rfl⟩
      · rename_i hw
        obtain ⟨rfl, rfl⟩ := gives_pure.mp h
        exact .inl ⟨by simpa using hw, rfl, rfl⟩
    · simp only [hp, Bool.not_false, if_true] at h
      obtain ⟨_, _, h, -⟩ := gives_bind.mp h
      exact absurd h gives_throw
  · rintro ⟨hp, ds, m₁, s₁, hds, hm, hx⟩
    refine gives_bind.mpr ⟨(), s.ask .presence, gives_modify.mpr rfl, ?_⟩
    simp only [hp, Bool.not_true, Bool.false_eq_true, if_false]
    refine gives_bind.mpr ⟨(), _, gives_modify.mpr rfl, gives_bind.mpr ⟨ds, _, gives_except.mpr ⟨hds, rfl⟩, ?_⟩⟩
    refine gives_bind.mpr ⟨m₁, s₁, hm, ?_⟩
    rcases hx with ⟨hw, rfl, rfl⟩ | ⟨hw, m₂, added, hx, rfl⟩
    · rw [if_neg (by simp [hw])]
      exact gives_pure.mpr ⟨rfl, rfl⟩
    · rw [if_pos hw]
      refine gives_bind.mpr ⟨s₁, s₁, gives_get.mpr ⟨rfl, rfl⟩, ?_⟩
      exact gives_bind.mpr ⟨(m₂, .ok added), s', gives_lift.mpr hx, gives_pure.mpr ⟨rfl, rfl⟩⟩

theorem gives_extract {s s' : Session} (h : Gives (extract settings (some p)) s m s') :
    ∃ ds m₁ s₀ s₁, p.types = .ok ds ∧ s₀.referenced = s.referenced ∧
      Gives ((Classifier.ofSettings p settings).addTypes ds { project := p.name }) s₀ m₁ s₁ ∧
      ((settings.withExternals = false ∧ m = m₁.freeze) ∨
        (settings.withExternals = true ∧ ∃ m₂ added,
          (((Classifier.ofSettings p settings).addExternals s₁.referenced m₁).run s₁).run =
            ((m₂, .ok added), s') ∧ m = m₂.freeze)) := by
  obtain ⟨-, ds, m₁, s₁, hds, hm, hx⟩ := gives_extract_iff.mp h
  refine ⟨ds, m₁, (s.ask .presence).ask .types, s₁, hds, rfl, hm, hx.imp ?_ id⟩
  rintro ⟨hw, hm, -⟩
  exact ⟨hw, hm⟩

theorem result_eq_ok :
    result settings (some p) = .ok m ↔ ∃ s', Gives (extract settings (some p)) {} m s' := by
  have h : result settings (some p) = ((extract settings (some p)).run.run {}).run.1 := rfl
  rw [h]
  unfold Gives
  rcases ((extract settings (some p)).run.run {}).run with ⟨r, s⟩
  simp

theorem externals_of_without (hw : settings.withExternals = false) (h : result settings (some p) = .ok m) :
    m.externals = [] := by
  obtain ⟨s', h⟩ := result_eq_ok.mp h
  obtain ⟨-, ds, m₁, s₁, -, hm, ⟨-, rfl, -⟩ | ⟨hw', -⟩⟩ := gives_extract_iff.mp h
  · obtain ⟨es, rfl, -, -⟩ := Classifier.addTypes_entries hm
    rfl
  · rw [hw] at hw'
    cases hw'

end Extraction

namespace Model

/-- A type of the project refers to this name: a data type in its entry, at any depth, bears it and is
not `?`. -/
def RefersTo (m : Model) (n : String) : Prop :=
  ∃ e ∈ m.types, ∃ t ∈ e.dataTypes, ∃ u ∈ t.nodes, u.wildcard ≠ some .unbounded ∧ u.fullName = n

theorem mem_references_iff (m : Model) (n : String) :
    n ∈ m.types.flatMap Entry.references ↔ m.RefersTo n ∧ isPrimitiveName n = false := by
  simp only [RefersTo, Entry.references, DataType.allReferences, DataType.references,
    List.mem_flatMap, List.mem_filter, List.mem_map, decide_eq_true_eq, Bool.not_eq_true']
  refine ⟨?_, ?_⟩
  · rintro ⟨e, he, t, ht, ⟨u, ⟨hu, hw⟩, rfl⟩, hp⟩
    exact ⟨⟨e, he, t, ht, u, hu, hw, rfl⟩, hp⟩
  · rintro ⟨⟨e, he, t, ht, u, hu, hw, rfl⟩, hp⟩
    exact ⟨e, he, t, ht, ⟨u, ⟨hu, hw⟩, rfl⟩, hp⟩

end Model

namespace Extraction

/-- A model holds the types of the project in their order, and as stubs, by ascending names, exactly
the types known to the provider that the project's types refer to and that are not among them. -/
theorem externals_eq_references {p : Provider} {settings : Settings} {m : Model}
    (hp : ∀ n d, p.find? n = some d → d.name = n) (hw : settings.withExternals = true)
    (h : result settings (some p) = .ok m) :
    (∃ ds, p.types = .ok ds ∧ m.types.map (·.fullName) = ds.map (·.name)) ∧
    (m.externals.map (·.fullName)).Pairwise (· < ·) ∧
    ∀ n, n ∈ m.externals.map (·.fullName) ↔
      m.RefersTo n ∧ isPrimitiveName n = false ∧ n ∉ m.types.map (·.fullName) ∧ p.find? n ≠ none := by
  obtain ⟨s', h⟩ := result_eq_ok.mp h
  obtain ⟨ds, m₁, s₀, s₁, hds, hs, hm, hx⟩ := gives_extract h
  obtain ⟨es, rfl, hes, hn⟩ := Classifier.addTypes_entries hm
  rcases hx with ⟨hw', -⟩ | ⟨-, m₂, added, hx, rfl⟩
  · rw [hw] at hw'
    cases hw'
  · obtain ⟨stubs, rfl, -, hstubs⟩ := Classifier.addStubs_names hp (nodup_sortedNames _) hx
    simp only [Model.freeze, List.nil_append] at hstubs ⊢
    refine ⟨⟨ds, hds, hes⟩, ?_, ?_⟩
    · rw [hstubs]
      exact (pairwise_sortedNames _).filter _
    · intro n
      have hnoted : n ∈ s₁.referenced ↔ n ∈ es.flatMap Entry.references := by
        rw [hn n, hs]
        simp
      have hrefers := Model.mem_references_iff ⟨p.name, es, stubs, true⟩ n
      have hnew : Model.contains ⟨p.name, es, [], false⟩ n = false ↔ n ∉ es.map (·.fullName) := by
        rw [← Bool.not_eq_true, Model.contains_eq_true]
        simp
      rw [hstubs, List.mem_filter, mem_sortedNames, hnoted, hrefers, Bool.and_eq_true, Bool.not_eq_true',
        hnew, Option.isSome_iff_ne_none, and_assoc]
      rfl

theorem name_of_ofList {ds : List Declaration} {n : String} {d : Declaration}
    (h : Index.ofList ds n = some d) : d.name = n := by
  simpa using List.find?_some h

/-- One class that refers to its superclass, to a bound, to an unknown type and to itself. -/
def linked : Provider :=
  Provider.ofIndex "linked"
    [{ name := "A", superclass := some "QB;"
       fields := [⟨"m", "QM<+QK;*>;", [], false⟩, ⟨"next", "QA;", [], false⟩] }]
    (Index.ofList [{ name := "A" }, { name := "B" }, { name := "K" }, { name := "S" }])

theorem externals_eq_references_linked :
    (∀ n d, linked.find? n = some d → d.name = n) ∧
    ∃ m, result {} (some linked) = .ok m ∧ m.externals.map (·.fullName) = ["B", "K"] ∧
      m.RefersTo "K" ∧ linked.find? "K" ≠ none := by
  have hp : ∀ n d, linked.find? n = some d → d.name = n := fun n d h => name_of_ofList h
  have hx : (result {} (some linked)).toOption.map (fun m => m.externals.map (·.fullName)) =
      some ["B", "K"] := by cbv
  obtain ⟨m, hm, hx⟩ := Option.map_eq_some_iff.mp hx
  have h : result {} (some linked) = .ok m := by
    revert hm
    cases result {} (some linked) <;> simp [Except.toOption]
  obtain ⟨hrefers, -, -, hknown⟩ := ((externals_eq_references hp rfl h).2.2 "K").mp (by simp [hx])
  exact ⟨hp, m, h, hx, hrefers, hknown⟩

end Extraction
end TypeAtlas
