import TypeAtlas.Proofs.Project.Retry

/-! The states that requests can lead to. A project is as new, or its tables hold what its directories held
when it was read; so what holds of the tables of every reading holds of every model. -/

namespace TypeAtlas

namespace Project

open Sources

variable {p : Project} {fs : Files} {s : State} {settings : Settings}

/-- What the directories of a project held at some time. -/
structure Contents (p : Project) where
  files : Files
  own : List (Reading files.parser p.root)
  libraries : List (Directory files.parser)
  own_listing : Listing files p.exclusions p.root own
  library_roots : libraries.map (·.1) = p.libraries
  library_listings : ∀ l ∈ libraries, Listing files p.exclusions l.1 l.2

namespace Contents

def libraryTypes (c : Contents p) : List Declaration := c.libraries.flatMap (declarations ·.2)

def state (c : Contents p) : State := .filled (declarations c.own) c.libraryTypes

def types (c : Contents p) : List Declaration := c.state.types.declarations

theorem nodup_types (c : Contents p) : (c.types.map (·.name)).Nodup := Table.nodup_names_ofFirst _

theorem find?_eq (c : Contents p) : c.state.index.find? =
    ((Index.ofList c.types).orElse (Index.ofList c.libraryTypes)).orElse Platform.index := by
  rw [state, find?_filled]
  exact congrArg (fun own => (Index.orElse own _).orElse _) (Table.ofList_declarations _).symm

theorem name_of_find? (c : Contents p) {n : String} {d : Declaration} (h : c.state.index.find? n = some d) :
    d.name = n := by
  rw [find?_eq] at h
  rcases Option.or_eq_some_iff.mp h with h | ⟨-, h⟩
  · rcases Option.or_eq_some_iff.mp h with h | ⟨-, h⟩
    · exact Index.name_of_ofList_eq h
    · exact Index.name_of_ofList_eq h
  · exact Index.name_of_ofList_eq h

theorem opened_of_mem_types (c : Contents p) {d : Declaration} (h : d ∈ c.types) : OpenedSomewhere d := by
  obtain ⟨pre, post, eq, -⟩ := Table.mem_ofFirst.mp h
  have mem : d ∈ declarations c.own := by
    rw [eq]
    simp
  exact opened_of_mem_declarations mem

theorem opened_of_mem_libraryTypes (c : Contents p) {d : Declaration} (h : d ∈ c.libraryTypes) : OpenedSomewhere d := by
  obtain ⟨l, -, hd⟩ := List.mem_flatMap.mp h
  exact opened_of_mem_declarations hd

/-- Where a declaration is from that is found. -/
theorem of_find? (c : Contents p) {n : String} {d : Declaration} (h : c.state.index.find? n = some d) :
    OpenedSomewhere d ∨ d ∈ Platform.types := by
  rw [find?_eq] at h
  rcases Option.or_eq_some_iff.mp h with h | ⟨-, h⟩
  · rcases Option.or_eq_some_iff.mp h with h | ⟨-, h⟩
    · exact .inl (c.opened_of_mem_types (Index.mem_of_ofList_eq h))
    · exact .inl (c.opened_of_mem_libraryTypes (Index.mem_of_ofList_eq h))
  · exact .inr (Index.mem_of_ofList_eq h)

end Contents

/-! ### Every state -/

/-- As new, or read. -/
def Reached (p : Project) (s : State) : Prop := s = {} ∨ ∃ c : Contents p, s = c.state

/-- As new, or read from files of this sort. -/
def ReachedFrom (p : Project) (sources : Files → Prop) (s : State) : Prop :=
  s = {} ∨ ∃ c : Contents p, sources c.files ∧ s = c.state

theorem reached_iff : Reached p s ↔ ReachedFrom p (fun _ => True) s := by
  simp [Reached, ReachedFrom]

variable {sources : Files → Prop}

theorem contents_of_fill {u : Unit} {s' : State} {warnings warnings' : List Warning} (h : ReachedFrom p sources s)
    (hfs : sources fs) (filled : Gives (p.fill fs) (s, warnings) u (s', warnings')) :
    ∃ c : Contents p, sources c.files ∧ s' = c.state := by
  rcases h with rfl | ⟨c, hc, rfl⟩
  · obtain ⟨libraryTypes, ownTypes, _, _, readLibraries, readOwn, -, rfl⟩ := gives_fill rfl filled
    obtain ⟨own, own_listing, rfl⟩ := listing_of_read readOwn
    obtain ⟨libraries, roots, listings, rfl⟩ := listings_of_readAll readLibraries
    exact ⟨⟨fs, own, libraries, own_listing, roots, listings⟩, hfs, rfl⟩
  · have same : s' = c.state := congrArg Prod.fst (filled.unique (fill_of_loaded rfl)).2
    exact ⟨c, hc, same⟩

theorem reachedFrom_step (h : ReachedFrom p sources s) (c : Call) (hc : sources c.files) :
    ReachedFrom p sources (c.request p s).2 := by
  by_cases looksUp : c.question.looksUp p c.files = true
  · rcases gives_or_fails (p.fill c.files) (s, []) with ⟨_, ⟨s', warnings⟩, filled⟩ | ⟨e, ⟨s', warnings⟩, failed⟩
    · rw [request_of_gives looksUp filled]
      exact .inr (contents_of_fill h hc filled)
    · rw [request_of_fails looksUp failed]
      exact h
  · rw [request_of_missing looksUp]
    exact h

theorem reachedFrom_after (h : ReachedFrom p sources s) (calls : List Call) (hc : ∀ c ∈ calls, sources c.files) :
    ReachedFrom p sources (p.after s calls) := by
  induction calls generalizing s with
  | nil => exact h
  | cons c calls ih =>
    exact ih (reachedFrom_step h c (hc c List.mem_cons_self)) fun c' hc' => hc c' (List.mem_cons_of_mem c hc')

theorem reached (p : Project) (calls : List Call) : Reached p (p.after {} calls) :=
  reached_iff.mpr (reachedFrom_after (.inl rfl) calls fun _ _ => trivial)

/-- How an extraction ends: the project is missing, or one of its files cannot be read, or it is that of the
types in its tables. -/
theorem extract_of_reachedFrom (h : ReachedFrom p sources s) (hfs : sources fs) (settings : Settings) :
    (¬ p.isPresent fs ∧ (p.extract fs settings s).1.1 = .error (.missingProject p.name)) ∨
    (∃ e, (p.extract fs settings s).1.1 = .error e ∧ ∃ root ∈ p.libraries ++ [p.root],
      ∃ entry ∈ entries fs p.exclusions root, ∃ w w', Fails (readFile fs.parser root entry) w e w') ∨
    p.isPresent fs ∧ ∃ c : Contents p, sources c.files ∧ (p.extract fs settings s).2 = c.state ∧
      (p.extract fs settings s).1.1 = Extraction.result settings (some (c.state.provider p fs)) := by
  by_cases present : p.isPresent fs
  · rw [extract_of_present present]
    rcases gives_or_fails (p.fill fs) (s, []) with ⟨_, ⟨s', warnings⟩, filled⟩ | ⟨e, ⟨s', warnings⟩, failed⟩
    · obtain ⟨c, hc, rfl⟩ := contents_of_fill h hfs filled
      rw [ask_of_gives filled]
      exact .inr (.inr ⟨present, c, hc, rfl, rfl⟩)
    · rw [ask_of_fails failed]
      exact .inr (.inl ⟨e, rfl, file_of_fails_fill failed⟩)
  · rw [extract_of_missing present]
    exact .inl ⟨present, rfl⟩

theorem extract_of_reached (h : Reached p s) (fs : Files) (settings : Settings) :
    (¬ p.isPresent fs ∧ (p.extract fs settings s).1.1 = .error (.missingProject p.name)) ∨
    (∃ e, (p.extract fs settings s).1.1 = .error e ∧ ∃ root ∈ p.libraries ++ [p.root],
      ∃ entry ∈ entries fs p.exclusions root, ∃ w w', Fails (readFile fs.parser root entry) w e w') ∨
    p.isPresent fs ∧ ∃ c : Contents p, (p.extract fs settings s).2 = c.state ∧
      (p.extract fs settings s).1.1 = Extraction.result settings (some (c.state.provider p fs)) := by
  rcases extract_of_reachedFrom (reached_iff.mp h) trivial settings with missing | failed | ⟨present, c, -, state, eq⟩
  · exact .inl missing
  · exact .inr (.inl failed)
  · exact .inr (.inr ⟨present, c, state, eq⟩)

end Project
end TypeAtlas
