import TypeAtlas.Proofs.Extraction.Entries
import TypeAtlas.Proofs.Lists

/-! The pass over the types from elsewhere. Which stubs it adds depends on the set of candidates alone: their
collection is looked at once, before the first stub refers to anything, and a stub never makes another candidate
known. A second pass finds nothing left to add. -/

namespace TypeAtlas

open Extraction

namespace Classifier

variable {c : Classifier} {m : Model} {names : List String} {es : List Entry}

/-- The pass over a collection as a session shows it when the pass begins: one that grows along with the
session, such as its references, or one that stays as it is. -/
def addExternalsIn (c : Classifier) (view : Session → List String) (m : Model) :
    StateM Session (Model × Except Error Nat) := do
  c.addExternals (view (← get)) m

/-- A name gets a stub if it is new to the model and known to the provider. -/
def Lacks (c : Classifier) (m : Model) (n : String) : Prop := m.contains n = false ∧ (c.provider.find? n).isSome

instance (c : Classifier) (m : Model) : DecidablePred (c.Lacks m) :=
  fun n => inferInstanceAs (Decidable (m.contains n = false ∧ (c.provider.find? n).isSome))

/-- The entry of the declaration that the provider has under a name. -/
def StubOf (c : Classifier) (n : String) (e : Entry) : Prop := ∃ d, c.provider.find? n = some d ∧ c.Classified d e

/-- A stub for each candidate that gets one, in ascending order of names. -/
structure StubsFor (c : Classifier) (m : Model) (names : List String) (es : List Entry) : Prop where
  stubs : ∀ e ∈ es, c.StubOf e.fullName e
  mem_iff : ∀ n, n ∈ es.map (·.fullName) ↔ n ∈ names ∧ c.Lacks m n
  ascending : (es.map (·.fullName)).Pairwise (· < ·)

/-- The provider finds declarations under their own names. -/
def NamesMatch (c : Classifier) : Prop := ∀ n d, c.provider.find? n = some d → d.name = n

theorem StubOf.fullName_eq {n : String} {e : Entry} (matching : c.NamesMatch) (h : c.StubOf n e) : e.fullName = n := by
  obtain ⟨d, known, classified⟩ := h
  rw [classified.fullName_eq, matching n d known]

theorem fullNames_of_stubs (matching : c.NamesMatch) (h : List.Forall₂ c.StubOf names es) :
    es.map (·.fullName) = names := by
  induction h with
  | nil => rfl
  | cons he _ ih => rw [List.map_cons, he.fullName_eq matching, ih]

/-- A stub takes its own name from those that are lacking, and no other. -/
theorem lacks_append {e : Entry} {n : String} (ne : e.fullName ≠ n) :
    c.Lacks { m with externals := m.externals ++ [e] } n ↔ c.Lacks m n := by
  rw [Lacks, Lacks, Model.contains_append_external, beq_eq_false_iff_ne.mpr ne, Bool.or_false]

/-! ### One pass -/

/-- Over names that are all different, the pass adds the stubs of those that the model lacks at the outset. -/
theorem run_addStubs (matching : c.NamesMatch) (unfrozen : m.isFrozen = false) (nodup : names.Nodup)
    (h : List.Forall₂ c.StubOf (names.filter (c.Lacks m ·)) es) (s : Session) :
    ∃ s', ((c.addStubs names m).run s).run = (({ m with externals := m.externals ++ es }, .ok es.length), s') ∧
      Noted s (es.flatMap Entry.references) s' := by
  induction names generalizing m es s with
  | nil =>
    cases h
    exact ⟨s, by simp [addStubs], .refl s⟩
  | cons n names ih =>
    rw [List.nodup_cons] at nodup
    by_cases lacks : c.Lacks m n
    · rw [List.filter_cons_of_pos (by simpa using lacks)] at h
      obtain ⟨e, es, he, hes, rfl⟩ := List.forall₂_cons_left_iff.mp h
      have name : e.fullName = n := he.fullName_eq matching
      obtain ⟨d, known, classified⟩ := he
      obtain ⟨s₁, hd⟩ := classified.gives (s.ask (.find n))
      -- with this stub in the model, the rest of the names lack what they lacked before
      have same : names.filter (c.Lacks { m with externals := m.externals ++ [e] } ·) = names.filter (c.Lacks m ·) := by
        apply List.filter_congr
        intro k hk
        have ne : e.fullName ≠ k := name ▸ fun h => nodup.1 (h ▸ hk)
        exact decide_eq_decide.mpr (lacks_append ne)
      obtain ⟨s', rest, noted⟩ := ih (m := { m with externals := m.externals ++ [e] }) unfrozen nodup.2 (same ▸ hes) s₁
      rw [List.append_assoc] at rest
      refine ⟨s', addStubs_of_stub lacks.1 known hd unfrozen (name ▸ lacks.1) rest, ?_⟩
      rw [List.flatMap_cons]
      exact (notes_classify c d hd).trans noted
    · rw [List.filter_cons_of_neg (by simpa using lacks)] at h
      have skip : m.contains n = true ∨ c.provider.find? n = none := by
        by_contra other
        simp only [not_or, Bool.not_eq_true, ← Option.isSome_iff_ne_none] at other
        exact lacks other
      obtain ⟨s₁, referenced, skipped⟩ := addStubs_of_skip skip names s
      obtain ⟨s', rest, noted⟩ := ih unfrozen nodup.2 h s₁
      refine ⟨s', skipped.trans rest, fun k => ?_⟩
      rw [noted k, referenced]

/-- The stubs of a collection belong to its names, sorted and without those that get none. -/
theorem StubsFor.forall₂ (h : c.StubsFor m names es) :
    List.Forall₂ c.StubOf ((sortedNames names).filter (c.Lacks m ·)) es := by
  have fullNames : es.map (·.fullName) = (sortedNames names).filter (c.Lacks m ·) := by
    apply h.ascending.eq_of_mem_iff ((pairwise_sortedNames names).filter _)
    intro n
    rw [h.mem_iff, List.mem_filter, mem_sortedNames, decide_eq_true_iff]
  rw [← fullNames, List.forall₂_map_left_iff, List.forall₂_same]
  exact h.stubs

theorem StubsFor.congr {names' : List String} (h : c.StubsFor m names es) (same : ∀ n, n ∈ names' ↔ n ∈ names) :
    c.StubsFor m names' es where
  stubs := h.stubs
  mem_iff := by simpa only [same] using h.mem_iff
  ascending := h.ascending

theorem exists_stubsFor (matching : c.NamesMatch)
    (classifies : ∀ n ∈ names, m.contains n = false → ∀ d, c.provider.find? n = some d → ∃ e, c.Classified d e) :
    ∃ es, c.StubsFor m names es := by
  obtain ⟨es, hes⟩ : ∃ es, List.Forall₂ c.StubOf ((sortedNames names).filter (c.Lacks m ·)) es := by
    apply exists_forall₂
    intro n hn
    rw [List.mem_filter, mem_sortedNames, decide_eq_true_iff] at hn
    obtain ⟨candidate, new, known⟩ := hn
    obtain ⟨d, known⟩ := Option.isSome_iff_exists.mp known
    obtain ⟨e, classified⟩ := classifies n candidate new d known
    exact ⟨e, d, known, classified⟩
  have fullNames := fullNames_of_stubs matching hes
  refine ⟨es, fun e he => ?_, fun n => ?_, ?_⟩
  · obtain ⟨n, -, stub⟩ := exists_left_of_forall₂ hes he
    rwa [stub.fullName_eq matching]
  · rw [fullNames, List.mem_filter, mem_sortedNames, decide_eq_true_iff]
  · rw [fullNames]
    exact (pairwise_sortedNames names).filter _

theorem run_addExternals (matching : c.NamesMatch) (unfrozen : m.isFrozen = false) (h : c.StubsFor m names es)
    (s : Session) :
    ∃ s', ((c.addExternals names m).run s).run = (({ m with externals := m.externals ++ es }, .ok es.length), s') ∧
      Noted s (es.flatMap Entry.references) s' :=
  run_addStubs matching unfrozen (nodup_sortedNames names) h.forall₂ s

/-! ### Any pass over the same names -/

/-- With its stubs added, the model lacks none of the candidates. -/
theorem StubsFor.again (h : c.StubsFor m names es) :
    c.StubsFor { m with externals := m.externals ++ es } names [] := by
  refine ⟨nofun, fun n => ⟨nofun, ?_⟩, .nil⟩
  rintro ⟨candidate, new, known⟩
  have old : m.contains n = false ∧ n ∉ es.map (·.fullName) := by
    rw [Bool.eq_false_iff, ne_eq, Model.contains_eq_true] at new ⊢
    simp only [List.map_append, List.mem_append, not_or] at new ⊢
    exact ⟨⟨new.1, new.2.1⟩, new.2.2⟩
  exact absurd ((h.mem_iff n).mpr ⟨candidate, old.1, known⟩) old.2

/-- A pass over candidates that can all be classified adds a stub for exactly those that the model lacks, in
ascending order, and leaves the rest of the model as it is. Every collection of the same names gives the same,
whether it grows in the pass or not, and another pass over them adds nothing. -/
theorem addExternals_exact (c : Classifier) (m : Model) (names : List String)
    (matching : ∀ n d, c.provider.find? n = some d → d.name = n) (unfrozen : m.isFrozen = false)
    (classifies : ∀ n ∈ names, m.contains n = false → ∀ d, c.provider.find? n = some d → ∃ e, c.Classified d e) :
    ∃ es, c.StubsFor m names es ∧
      ∀ (view : Session → List String) (s : Session), (∀ n, n ∈ view s ↔ n ∈ names) →
        (∃ s', ((c.addExternalsIn view m).run s).run =
            (({ m with externals := m.externals ++ es }, .ok es.length), s') ∧
          Noted s (es.flatMap Entry.references) s') ∧
        (∃ s', ((c.addExternalsIn view { m with externals := m.externals ++ es }).run s).run =
            (({ m with externals := m.externals ++ es }, .ok 0), s') ∧
          Noted s [] s') := by
  obtain ⟨es, hes⟩ := exists_stubsFor matching classifies
  refine ⟨es, hes, fun view s same => ⟨?_, ?_⟩⟩
  · exact run_addExternals matching unfrozen (hes.congr same) s
  · obtain ⟨s', run, noted⟩ := run_addExternals (m := { m with externals := m.externals ++ es }) matching unfrozen
      (hes.again.congr same) s
    rw [List.append_nil] at run
    exact ⟨s', run, noted⟩

/-- Two types from elsewhere, one of which has a superclass that is not among the candidates. -/
def distantTypes : List Declaration :=
  [{ name := "b.Two" }, { name := "a.One", superclass := some "QBase;", scope := some (.names [("Base", "b.Base")]) },
    { name := "b.Base" }]

def distant : Provider := .ofIndex "distant" [] (Index.ofList distantTypes)

def ownModel : Model := { project := "own", types := [{ fullName := "p.Own", variant := .ofInterface }] }

/-- The pass over the references of a session adds the two in ascending order, and not the superclass. -/
theorem addExternals_exact_growing : ∃ (es : List Entry) (s s' : Session),
    s.referenced = ["b.Two", "p.Own", "a.One", "T"] ∧ es.map (·.fullName) = ["a.One", "b.Two"] ∧
    (((ofSettings distant {}).addExternalsIn Session.referenced ownModel).run s).run =
      (({ ownModel with externals := es }, .ok 2), s') := by
  let s : Session := { referenced := ["b.Two", "p.Own", "a.One", "T"] }
  let c := ofSettings distant {}
  have classifies (n : String) (d : Declaration) (h : distant.find? n = some d) : ∃ e, c.Classified d e := by
    have found : distantTypes.find? (·.name == n) = some d := h
    have member : d ∈ distantTypes := List.mem_of_find?_eq_some found
    fin_cases member
    · exact ⟨_, {}, _, rfl⟩
    · have one : Gives (c.classify
          { name := "a.One", superclass := some "QBase;", scope := some (.names [("Base", "b.Base")]) }) {}
          { fullName := "a.One", variant := .ofClass false false (some ⟨"b.Base", 0, [], none⟩) }
          { referenced := ["b.Base"], queries := [.find "b.Base"] } := by cbv
      exact ⟨_, _, _, one⟩
    · exact ⟨_, {}, _, rfl⟩
  obtain ⟨es, stubs, passes⟩ := addExternals_exact c ownModel s.referenced (fun _ _ h => name_of_ofList h) rfl
    fun n _ _ d h => classifies n d h
  obtain ⟨⟨s', run, -⟩, -⟩ := passes Session.referenced s fun _ => .rfl
  have fullNames : es.map (·.fullName) = ["a.One", "b.Two"] := by
    apply stubs.ascending.eq_of_mem_iff (by decide)
    intro n
    rw [stubs.mem_iff]
    constructor
    · rintro ⟨candidate, lacks⟩
      fin_cases candidate
      · decide
      · exact absurd lacks (by decide)
      · decide
      · exact absurd lacks (by decide)
    · intro h
      fin_cases h
      · decide
      · decide
  have two : es.length = 2 := by simpa using congrArg List.length fullNames
  rw [two] at run
  exact ⟨es, s, s', rfl, fullNames, run⟩

end Classifier
end TypeAtlas
