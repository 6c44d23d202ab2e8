import TypeAtlas.Proofs.Project.Loading
import TypeAtlas.Proofs.Project.Tables

/-! Filling the tables of a project. Reading comes before the first entry, so a reading that fails leaves
the tables as they were; one that succeeds finds the types of the project before those of its libraries and
these before those of the platform. -/

namespace TypeAtlas

namespace Project

open Work

variable {α : Type} {p : Project} {fs : Files} {s s' : State} {warnings warnings' : List Warning} {e : Error}
  {d : Declaration} {ds : List Declaration}

theorem run_aside (x : Warned α) : ((aside x).run.run (s, warnings)).run =
    ((x.run.run warnings).run.1, (s, (x.run.run warnings).run.2)) := rfl

theorem gives_aside {x : Warned α} {a : α} :
    Gives (aside x) (s, warnings) a (s', warnings') ↔ s = s' ∧ Gives x warnings a warnings' := by
  unfold Gives
  rw [run_aside, Prod.ext_iff, Prod.ext_iff, Prod.ext_iff]
  tauto

theorem fails_aside {x : Warned α} :
    Fails (aside x) (s, warnings) e (s', warnings') ↔ s = s' ∧ Fails x warnings e warnings' := by
  unfold Fails
  rw [run_aside, Prod.ext_iff, Prod.ext_iff, Prod.ext_iff]
  tauto

theorem gives_state {t : State} :
    Gives state (s, warnings) t (s', warnings') ↔ s = t ∧ s = s' ∧ warnings = warnings' := by
  change ((Except.ok s, (s, warnings)) : Except Error State × State × List Warning) = (.ok t, (s', warnings')) ↔ _
  simp

theorem gives_change {f : State → State} {u : Unit} :
    Gives (change f) (s, warnings) u (s', warnings') ↔ f s = s' ∧ warnings = warnings' := by
  change ((Except.ok (), (f s, warnings)) : Except Error Unit × State × List Warning) = (.ok u, (s', warnings')) ↔ _
  simp

theorem not_fails_state : ¬ Fails state (s, warnings) e (s', warnings') := nofun

theorem not_fails_change {f : State → State} : ¬ Fails (change f) (s, warnings) e (s', warnings') := nofun

/-! ### Entering types -/

theorem gives_enter {u : Unit} : Gives (enter d) (s, warnings) u (s', warnings') ↔
    s' = { s with types := s.types.add d } ∧
      warnings' = if s.types.find?.knows d.name then .duplicateDeclaration d.name d.sourceFile :: warnings
        else warnings := by
  unfold enter Table.add
  simp only [gives_bind, Prod.exists]
  refine ⟨?_, ?_⟩
  · rintro ⟨t, s₁, warnings₁, hs, h⟩
    obtain ⟨rfl, rfl, rfl⟩ := gives_state.mp hs
    split at h
    · rename_i known
      obtain ⟨rfl, told⟩ := gives_aside.mp h
      rw [if_pos known, if_pos known]
      exact ⟨rfl, (gives_modify.mp told).symm⟩
    · rename_i new
      obtain ⟨rfl, rfl⟩ := gives_change.mp h
      rw [if_neg new, if_neg new]
      exact ⟨rfl, rfl⟩
  · rintro ⟨rfl, rfl⟩
    refine ⟨s, s, warnings, gives_state.mpr ⟨rfl, rfl, rfl⟩, ?_⟩
    split
    · exact gives_aside.mpr ⟨rfl, gives_modify.mpr rfl⟩
    · exact gives_change.mpr ⟨rfl, rfl⟩

theorem not_fails_enter : ¬ Fails (enter d) (s, warnings) e (s', warnings') := by
  unfold enter
  rw [fails_bind]
  rintro (h | ⟨t, ⟨s₁, warnings₁⟩, -, h⟩)
  · exact not_fails_state h
  · split at h
    · cases (fails_aside.mp h).2
    · exact not_fails_change h

theorem types_of_enterAll {u : Unit} (h : Gives (enterAll ds) (s, warnings) u (s', warnings')) :
    s' = { s with types := ds.foldl Table.add s.types } := by
  induction ds generalizing s warnings with
  | nil =>
    rw [enterAll, gives_pure] at h
    exact (congrArg Prod.fst h.2).symm
  | cons d ds ih =>
    rw [enterAll, gives_bind] at h
    obtain ⟨_, ⟨s₁, warnings₁⟩, hd, h⟩ := h
    obtain ⟨rfl, -⟩ := gives_enter.mp hd
    exact ih h

/-- Every type whose name has been entered before gives a warning. -/
theorem warnings_of_enterAll {u : Unit} {before : List Declaration} (types : s.types = .ofFirst before)
    (h : Gives (enterAll ds) (s, warnings) u (s', warnings')) : (∀ w ∈ warnings, w ∈ warnings') ∧
      ∀ pre d post, ds = pre ++ d :: post → d.name ∈ (before ++ pre).map (·.name) →
        .duplicateDeclaration d.name d.sourceFile ∈ warnings' := by
  induction ds generalizing before s warnings with
  | nil =>
    rw [enterAll, gives_pure] at h
    have same : warnings = warnings' := congrArg Prod.snd h.2
    exact ⟨fun w hw => same ▸ hw, fun pre d post eq => by simp at eq⟩
  | cons d ds ih =>
    rw [enterAll, gives_bind] at h
    obtain ⟨_, ⟨s₁, warnings₁⟩, hd, h⟩ := h
    obtain ⟨rfl, rfl⟩ := gives_enter.mp hd
    have added : s.types.add d = .ofFirst (before ++ [d]) := by rw [types, Table.ofFirst_concat]
    obtain ⟨kept, told⟩ := ih added h
    refine ⟨fun w hw => kept w ?_, ?_⟩
    · split
      · exact List.mem_cons_of_mem _ hw
      · exact hw
    · rintro (_ | ⟨b, pre⟩) e post eq known
      · obtain ⟨rfl, rfl⟩ := List.cons.inj eq
        rw [List.append_nil] at known
        refine kept _ ?_
        rw [types, Table.find?_ofFirst, Index.knows, if_pos (Index.isSome_ofList.mpr known)]
        exact List.mem_cons_self
      · obtain ⟨rfl, rfl⟩ := List.cons.inj eq
        refine told pre e post rfl ?_
        rwa [List.append_assoc, List.singleton_append]

theorem not_fails_enterAll : ¬ Fails (enterAll ds) (s, warnings) e (s', warnings') := by
  induction ds generalizing s warnings with
  | nil => exact fails_pure
  | cons d ds ih =>
    rw [enterAll, fails_bind]
    rintro (h | ⟨_, ⟨s₁, warnings₁⟩, -, h⟩)
    · exact not_fails_enter h
    · exact ih h

/-! ### Filling -/

/-- What a filling that succeeds has read and what it leaves. -/
theorem gives_fill {u : Unit} (new : s.isLoaded = false) (h : Gives (p.fill fs) (s, warnings) u (s', warnings')) :
    ∃ libraryTypes own warnings₁ warnings₂,
      Gives (Sources.readAll fs p.exclusions p.libraries) warnings libraryTypes warnings₁ ∧
        Gives (Sources.read fs p.exclusions p.root) warnings₁ own warnings₂ ∧
        Gives (enterAll own) (s, warnings₂) () ({ s with types := own.foldl Table.add s.types }, warnings') ∧
        s' = ({ s with types := own.foldl Table.add s.types } : State).publish (.ofFirst libraryTypes) := by
  unfold fill at h
  obtain ⟨t, ⟨s₀, warnings₀⟩, hs, h⟩ := gives_bind.mp h
  obtain ⟨rfl, rfl, rfl⟩ := gives_state.mp hs
  rw [if_neg (by simp [new])] at h
  obtain ⟨libraryTypes, ⟨s₁, warnings₁⟩, hl, h⟩ := gives_bind.mp h
  obtain ⟨rfl, readLibraries⟩ := gives_aside.mp hl
  obtain ⟨own, ⟨s₂, warnings₂⟩, ho, h⟩ := gives_bind.mp h
  obtain ⟨rfl, readOwn⟩ := gives_aside.mp ho
  obtain ⟨_, ⟨s₃, warnings₃⟩, he, h⟩ := gives_bind.mp h
  obtain ⟨rfl, rfl⟩ := gives_change.mp h
  obtain rfl := types_of_enterAll he
  exact ⟨libraryTypes, own, warnings₁, warnings₂, readLibraries, readOwn, he, rfl⟩

/-- A project that has been read is not read again. -/
theorem fill_of_loaded (h : s.isLoaded) : Gives (p.fill fs) (s, warnings) () (s, warnings) := by
  unfold fill
  refine gives_bind.mpr ⟨s, (s, warnings), gives_state.mpr ⟨rfl, rfl, rfl⟩, ?_⟩
  rw [if_pos h]
  exact gives_pure.mpr ⟨rfl, rfl⟩

/-- How a filling fails: while files are read, which is before the first entry. -/
theorem fails_fill (h : Fails (p.fill fs) (s, warnings) e (s', warnings')) : s' = s ∧ ¬ s.isLoaded ∧
    (Fails (Sources.readAll fs p.exclusions p.libraries) warnings e warnings' ∨
      ∃ libraryTypes warnings₁, Gives (Sources.readAll fs p.exclusions p.libraries) warnings libraryTypes warnings₁ ∧
        Fails (Sources.read fs p.exclusions p.root) warnings₁ e warnings') := by
  unfold fill at h
  rcases fails_bind.mp h with h | ⟨t, ⟨s₀, warnings₀⟩, hs, h⟩
  · exact absurd h not_fails_state
  obtain ⟨rfl, rfl, rfl⟩ := gives_state.mp hs
  split at h
  · exact absurd h fails_pure
  rename_i unread
  rcases fails_bind.mp h with h | ⟨libraryTypes, ⟨s₁, warnings₁⟩, hl, h⟩
  · obtain ⟨rfl, failed⟩ := fails_aside.mp h
    exact ⟨rfl, unread, .inl failed⟩
  obtain ⟨rfl, readLibraries⟩ := gives_aside.mp hl
  rcases fails_bind.mp h with h | ⟨own, ⟨s₂, warnings₂⟩, -, h⟩
  · obtain ⟨rfl, failed⟩ := fails_aside.mp h
    exact ⟨rfl, unread, .inr ⟨libraryTypes, warnings₁, readLibraries, failed⟩⟩
  rcases fails_bind.mp h with h | ⟨_, ⟨s₃, warnings₃⟩, -, h⟩
  · exact absurd h not_fails_enterAll
  · exact absurd h not_fails_change

/-- The error is that of a source file, in the project or in one of its libraries. -/
theorem file_of_fails_fill (h : Fails (p.fill fs) (s, warnings) e (s', warnings')) :
    ∃ root ∈ p.libraries ++ [p.root], ∃ entry ∈ Sources.entries fs p.exclusions root,
      ∃ w w', Fails (Sources.readFile fs.parser root entry) w e w' := by
  obtain ⟨-, -, failed | ⟨_, _, -, failed⟩⟩ := fails_fill h
  · obtain ⟨root, mem, file⟩ := Sources.fails_readAll failed
    exact ⟨root, List.mem_append_left _ mem, file⟩
  · exact ⟨p.root, by simp, Sources.fails_readFiles failed⟩

theorem isLoaded_of_fill {u : Unit} (h : Gives (p.fill fs) (s, warnings) u (s', warnings')) : s'.isLoaded := by
  cases new : s.isLoaded with
  | true =>
    have same : s' = s := congrArg Prod.fst (h.unique (fill_of_loaded new)).2
    rw [same, new]
  | false =>
    obtain ⟨_, _, _, _, -, -, -, rfl⟩ := gives_fill new h
    rfl

/-! ### Requests -/

variable {answer : State → Except Error α}

theorem ask_of_gives {u : Unit} (h : Gives (p.fill fs) (s, []) u (s', warnings)) :
    p.ask fs answer s = ((answer s', warnings.reverse), s') := by
  unfold ask perform
  have run : ((p.fill fs >>= fun _ => Work.state >>= fun t => liftM (answer t) : Work α).run.run (s, [])).run =
      (answer s', (s', warnings)) := by
    cases result : answer s' with
    | ok a =>
      refine gives_bind.mpr ⟨(), _, h, gives_bind.mpr ⟨s', _, gives_state.mpr ⟨rfl, rfl, rfl⟩, ?_⟩⟩
      exact gives_except.mpr ⟨result, rfl⟩
    | error e =>
      refine fails_bind.mpr (.inr ⟨(), _, h, fails_bind.mpr (.inr ⟨s', _, gives_state.mpr ⟨rfl, rfl, rfl⟩, ?_⟩)⟩)
      exact fails_except.mpr ⟨result, rfl⟩
  exact congrArg (fun r => ((r.1, r.2.2.reverse), r.2.1)) run

theorem ask_of_fails (h : Fails (p.fill fs) (s, []) e (s', warnings)) :
    p.ask fs answer s = ((.error e, warnings.reverse), s) := by
  obtain rfl := (fails_fill h).1
  have run : Fails (p.fill fs >>= fun _ => Work.state >>= fun t => liftM (answer t) : Work α) (s', []) e
      (s', warnings) := fails_bind.mpr (.inl h)
  exact congrArg (fun r => ((r.1, r.2.2.reverse), r.2.1)) run

/-! ### What is found -/

/-- The tables of a project with these types of its own and of its libraries. -/
def State.filled (own libraryTypes : List Declaration) : State :=
  ({ types := .ofFirst own } : State).publish (.ofFirst libraryTypes)

theorem find?_filled (own libraryTypes : List Declaration) : (State.filled own libraryTypes).index.find? =
    ((Index.ofList own).orElse (Index.ofList libraryTypes)).orElse Platform.index := by
  funext n
  change (((Table.update {} Platform.table).update (.ofFirst libraryTypes)).update (.ofFirst own)).find? n = _
  rw [Table.find?_update, Table.find?_update, Table.find?_update, Table.find?_ofFirst, Table.find?_ofFirst,
    Platform.find?_table, Index.orElse, Index.orElse, Option.or_assoc]
  congr 2
  exact Option.or_none

theorem ask_of_loaded (h : s.isLoaded) : p.ask fs answer s = ((answer s, []), s) := ask_of_gives (fill_of_loaded h)

/-- A first request that gives the types of a project has read its directories. -/
theorem filled_of_types {types : List Declaration} (h : (p.types fs {}).1.1 = .ok types) :
    ∃ (own : List (Sources.Reading fs.parser p.root)) (libraries : List (Sources.Directory fs.parser)) (s : State)
      (warnings : List Warning),
      Sources.Listing fs p.exclusions p.root own ∧ libraries.map (·.1) = p.libraries ∧
        (∀ l ∈ libraries, Sources.Listing fs p.exclusions l.1 l.2) ∧
        s = .filled (Sources.declarations own) (libraries.flatMap (Sources.declarations ·.2)) ∧
        types = s.types.declarations ∧
        (∀ pre d post, Sources.declarations own = pre ++ d :: post → d.name ∈ pre.map (·.name) →
          .duplicateDeclaration d.name d.sourceFile ∈ warnings) ∧
        p.types fs {} = ((.ok types, warnings), s) := by
  unfold Project.types at h ⊢
  rcases gives_or_fails (p.fill fs) ({}, []) with ⟨_, ⟨s, warnings⟩, hf⟩ | ⟨e, ⟨s, warnings⟩, hf⟩
  · rw [ask_of_gives hf] at h ⊢
    obtain ⟨libraryTypes, ownTypes, _, _, readLibraries, readOwn, entered, hs⟩ := gives_fill rfl hf
    obtain ⟨own, own_listing, rfl⟩ := Sources.listing_of_read readOwn
    obtain ⟨libraries, roots, listings, rfl⟩ := Sources.listings_of_readAll readLibraries
    have new : ({} : State).types = .ofFirst [] := rfl
    refine ⟨own, libraries, s, warnings.reverse, own_listing, roots, listings, hs, (Except.ok.inj h).symm, ?_, ?_⟩
    · exact fun pre d post eq known => List.mem_reverse.mpr ((warnings_of_enterAll new entered).2 pre d post eq known)
    · rw [← Except.ok.inj h]
  · rw [ask_of_fails hf] at h
    cases h

/-! ### A project that has been read, as lists -/

theorem gives_keepFirst {before : List Declaration} {u : Unit} (types : s.types = .ofFirst before)
    (h : Gives (enterAll ds) (s, warnings) u (s', warnings')) :
    Gives (keepFirst (Table.ofFirst before).declarations ds) warnings (Table.ofFirst (before ++ ds)).declarations
      warnings' := by
  induction ds generalizing before s warnings with
  | nil =>
    rw [enterAll, gives_pure] at h
    rw [keepFirst, List.append_nil]
    exact gives_pure.mpr ⟨rfl, congrArg Prod.snd h.2⟩
  | cons d ds ih =>
    rw [enterAll, gives_bind] at h
    obtain ⟨_, ⟨s₁, warnings₁⟩, hd, h⟩ := h
    obtain ⟨rfl, rfl⟩ := gives_enter.mp hd
    have added : s.types.add d = .ofFirst (before ++ [d]) := by rw [types, Table.ofFirst_concat]
    have rest := ih added h
    rw [List.append_assoc, List.singleton_append, Table.ofFirst_concat] at rest
    unfold keepFirst
    rw [Table.any_name_ofFirst]
    rw [types] at rest
    split
    · rename_i known
      rw [if_pos known, Table.add, if_pos known] at rest
      exact gives_bind.mpr ⟨(), _, gives_modify.mpr rfl, rest⟩
    · rename_i new
      rw [if_neg new, Table.declarations_add new] at rest
      exact rest

/-- A filling from the start reads what `load` reads. -/
theorem gives_load {u : Unit} (h : Gives (p.fill fs) ({}, warnings) u (s, warnings')) :
    ∃ c, Gives (p.load fs) warnings c warnings' ∧ s.types.declarations = c.types ∧ s.index.find? = c.find? := by
  obtain ⟨libraryTypes, own, warnings₁, warnings₂, readLibraries, readOwn, entered, rfl⟩ := gives_fill rfl h
  refine ⟨⟨(Table.ofFirst own).declarations, libraryTypes⟩, ?_, rfl, ?_⟩
  · unfold load
    refine gives_bind.mpr ⟨libraryTypes, warnings₁, readLibraries, ?_⟩
    refine gives_bind.mpr ⟨own, warnings₂, readOwn, ?_⟩
    have new : ({} : State).types = .ofFirst [] := rfl
    refine gives_bind.mpr ⟨_, warnings', gives_keepFirst new entered, ?_⟩
    exact gives_pure.mpr ⟨rfl, rfl⟩
  · unfold Catalogue.find?
    rw [Table.ofList_declarations]
    exact find?_filled own libraryTypes

theorem fails_load (h : Fails (p.fill fs) (s, warnings) e (s', warnings')) : Fails (p.load fs) warnings e warnings' := by
  unfold load
  obtain ⟨-, -, failed | ⟨libraryTypes, warnings₁, readLibraries, failed⟩⟩ := fails_fill h
  · exact fails_bind.mpr (.inl failed)
  · exact fails_bind.mpr (.inr ⟨libraryTypes, warnings₁, readLibraries, fails_bind.mpr (.inl failed)⟩)

/-- The first request is answered from what `load` gives, and fails as that fails. -/
theorem ask_new (p : Project) (fs : Files) :
    (∃ c s, (p.load fs).outcome.1 = .ok c ∧ s.types.declarations = c.types ∧ s.index.find? = c.find? ∧
        ∀ (β : Type) (answer : State → Except Error β),
          p.ask fs answer {} = ((answer s, (p.load fs).outcome.2), s)) ∨
      ∃ e, (p.load fs).outcome.1 = .error e ∧
        ∀ (β : Type) (answer : State → Except Error β),
          p.ask fs answer {} = ((.error e, (p.load fs).outcome.2), {}) := by
  rcases gives_or_fails (p.fill fs) ({}, []) with ⟨_, ⟨s, warnings⟩, h⟩ | ⟨e, ⟨s, warnings⟩, h⟩
  · obtain ⟨c, loads, types, index⟩ := gives_load h
    have outcome : (p.load fs).outcome = (.ok c, warnings.reverse) := congrArg (fun r => (r.1, r.2.reverse)) loads
    rw [outcome]
    exact .inl ⟨c, s, rfl, types, index, fun β answer => ask_of_gives h⟩
  · have outcome : (p.load fs).outcome = (.error e, warnings.reverse) :=
      congrArg (fun r => (r.1, r.2.reverse)) (fails_load h)
    rw [outcome]
    exact .inr ⟨e, rfl, fun β answer => ask_of_fails h⟩

theorem types_new (p : Project) (fs : Files) : (p.types fs {}).1.1 = (p.load fs).outcome.1.map (·.types) := by
  unfold Project.types
  rcases p.ask_new fs with ⟨c, s, loads, types, -, answers⟩ | ⟨e, loads, answers⟩
  · rw [answers, loads, types]
    rfl
  · rw [answers, loads]
    rfl

/-- The model that the first request gives is that of the declarations that `load` gives. -/
theorem extract_new {settings : Settings} (present : p.isPresent fs) : (p.extract fs settings {}).1 =
    ((p.load fs).outcome.1 >>= fun c => Extraction.result settings (some (p.provider fs c)),
      (p.load fs).outcome.2) := by
  unfold extract
  rw [if_pos present]
  rcases p.ask_new fs with ⟨c, s, loads, types, index, answers⟩ | ⟨e, loads, answers⟩
  · have provider : s.provider p fs = p.provider fs c := by
      unfold State.provider Project.provider
      rw [types, index]
    rw [answers, loads, provider]
    rfl
  · rw [answers, loads]
    rfl

end Project
end TypeAtlas
