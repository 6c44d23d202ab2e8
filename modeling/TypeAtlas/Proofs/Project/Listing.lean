import Mathlib.Data.List.Basic
import TypeAtlas.Project.Sources
import TypeAtlas.Proofs.Syntax.Nesting

/-! What a reading of directories that succeeds has read: every source file that no excluded directory
holds, in the order of the paths, and in each file all its types. -/

namespace TypeAtlas

open Syntax

namespace Path

theorem inOrder_trans : ∀ (a b c : List String), inOrder a b → inOrder b c → inOrder a c
  | [], _, _, _, _ => rfl
  | _ :: _, [], _, h, _ => by cases h
  | _ :: _, _ :: _, [], _, h => by cases h
  | a :: as, b :: bs, c :: cs, h, h' => by
    unfold inOrder at h h' ⊢
    rcases eq_or_ne a b with rfl | hab
    · rw [if_pos rfl] at h
      split
      · rename_i hac
        rw [if_pos hac] at h'
        exact inOrder_trans as bs cs h h'
      · rename_i hac
        rwa [if_neg hac] at h'
    · rw [if_neg hab, decide_eq_true_iff] at h
      rcases eq_or_ne b c with rfl | hbc
      · rw [if_neg hab, decide_eq_true_iff]
        exact h
      · rw [if_neg hbc, decide_eq_true_iff] at h'
        split
        · rename_i hac
          exact absurd (String.le_antisymm h (hac ▸ h')) hab
        · exact decide_eq_true (String.le_trans h h')

theorem inOrder_total : ∀ a b : List String, inOrder a b || inOrder b a
  | [], _ => rfl
  | _ :: _, [] => rfl
  | a :: as, b :: bs => by
    unfold inOrder
    rcases eq_or_ne a b with rfl | h
    · rw [if_pos rfl, if_pos rfl]
      exact inOrder_total as bs
    · rw [if_neg h, if_neg h.symm, Bool.or_eq_true, decide_eq_true_iff, decide_eq_true_iff]
      exact String.le_total a b

theorem toString_ne_empty (p : Path) : p.toString ≠ "" := by
  unfold toString
  dsimp only
  split
  · rw [Ne, ← String.toList_inj]
    simp
  · split
    · decide
    · assumption

end Path

namespace Sources

variable {fs : Files} {parser : Parser} {exclusions : List String} {root : Path} {roots : List Path}
  {ds : List Declaration} {s s' : List Warning}

/-- A source file below a directory that has been read, with its declarations. -/
structure Reading (parser : Parser) (root : Path) where
  entry : FileEntry
  file : ParsedFile
  types : List Declaration
  parsed : parse parser (root.below entry.components).toString entry.content = .ok file
  read : ∃ s s', Gives (file.read (some (root.below entry.components).toString)) s types s'

def Reading.path (r : Reading parser root) : String := (root.below r.entry.components).toString

/-- The declarations are those of the file's outline, outer ones before those nested in them. -/
theorem Reading.outlined (r : Reading parser root) : Outlined (some r.path) none r.file.outline r.types := by
  obtain ⟨s, s', h⟩ := r.read
  exact outlined_of_read h

theorem Reading.sourceFile (r : Reading parser root) : ∀ d ∈ r.types, d.sourceFile = some r.path := by
  obtain ⟨_, _, _, _, file⟩ := r.outlined
  intro d hd
  have kept : decide (r.path ≠ "") = true := decide_eq_true (Path.toString_ne_empty _)
  rw [file d hd, Option.filter_some, if_pos kept]

/-- Readings of all source files below a directory, without those in excluded directories. -/
structure Listing (fs : Files) (exclusions : List String) (root : Path) (readings : List (Reading fs.parser root)) :
    Prop where
  perm : (readings.map (·.entry)).Perm ((fs.below root).filter (isIncluded exclusions))
  ordered : (readings.map (·.entry.components)).Pairwise fun a b => Path.inOrder a b

def declarations (readings : List (Reading parser root)) : List Declaration := readings.flatMap (·.types)

def outline (readings : List (Reading parser root)) : Forest String :=
  readings.foldr (fun r f => r.file.outline.append f) .nil

theorem outlined_declarations : ∀ readings : List (Reading parser root), ∃ f : Forest Declaration,
    f.map (·.name) = outline readings ∧ f.Placed none ∧ f.types = declarations readings
  | [] => ⟨.nil, rfl, trivial, rfl⟩
  | r :: readings => by
    obtain ⟨f, names, placed, types, -⟩ := r.outlined
    obtain ⟨g, names', placed', types'⟩ := outlined_declarations readings
    refine ⟨f.append g, ?_, placed.append placed', ?_⟩
    · rw [Forest.map_append, names, names']
      rfl
    · rw [Forest.types_append, types, types']
      rfl

theorem reading_of_readFile {e : FileEntry} (h : Gives (readFile parser root e) s ds s') :
    ∃ r : Reading parser root, r.entry = e ∧ r.types = ds := by
  unfold readFile at h
  obtain ⟨f, s₁, hf, h⟩ := gives_bind.mp h
  exact ⟨⟨e, f, ds, (gives_except.mp hf).1, s₁, s', h⟩, rfl, rfl⟩

theorem readings_of_readFiles {es : List FileEntry} (h : Gives (readFiles parser root es) s ds s') :
    ∃ readings : List (Reading parser root), readings.map (·.entry) = es ∧ declarations readings = ds := by
  induction es generalizing s s' ds with
  | nil =>
    rw [readFiles, gives_pure] at h
    exact ⟨[], rfl, h.1⟩
  | cons e es ih =>
    rw [readFiles] at h
    obtain ⟨first, s₁, hf, h⟩ := gives_bind.mp h
    obtain ⟨rest, s₂, hr, h⟩ := gives_bind.mp h
    obtain ⟨rfl, -⟩ := gives_pure.mp h
    obtain ⟨r, rfl, rfl⟩ := reading_of_readFile hf
    obtain ⟨readings, rfl, rfl⟩ := ih hr
    exact ⟨r :: readings, rfl, rfl⟩

/-- A directory that is read gives the declarations of its source files in the order of the paths. -/
theorem listing_of_read (h : Gives (read fs exclusions root) s ds s') :
    ∃ readings, Listing fs exclusions root readings ∧ declarations readings = ds := by
  obtain ⟨readings, files, types⟩ := readings_of_readFiles h
  refine ⟨readings, ⟨?_, ?_⟩, types⟩
  · rw [files]
    exact List.mergeSort_perm _ _
  · have ordered : (entries fs exclusions root).Pairwise fun a b => Path.inOrder a.components b.components :=
      List.pairwise_mergeSort (fun a b c => Path.inOrder_trans a.components b.components c.components)
        (fun a b => Path.inOrder_total a.components b.components) _
    have components : readings.map (·.entry.components) = (readings.map (·.entry)).map (·.components) := by
      rw [List.map_map]
      rfl
    rw [components, files, List.pairwise_map]
    exact ordered

abbrev Directory (parser : Parser) := (root : Path) × List (Reading parser root)

theorem listings_of_readAll (h : Gives (readAll fs exclusions roots) s ds s') :
    ∃ directories : List (Directory fs.parser), directories.map (·.1) = roots ∧
      (∀ d ∈ directories, Listing fs exclusions d.1 d.2) ∧ directories.flatMap (declarations ·.2) = ds := by
  induction roots generalizing s s' ds with
  | nil =>
    rw [readAll, gives_pure] at h
    exact ⟨[], rfl, nofun, h.1⟩
  | cons root roots ih =>
    rw [readAll] at h
    obtain ⟨first, s₁, hf, h⟩ := gives_bind.mp h
    obtain ⟨rest, s₂, hr, h⟩ := gives_bind.mp h
    obtain ⟨rfl, -⟩ := gives_pure.mp h
    obtain ⟨readings, listing, rfl⟩ := listing_of_read hf
    obtain ⟨directories, rfl, listings, rfl⟩ := ih hr
    exact ⟨⟨root, readings⟩ :: directories, rfl, List.forall_mem_cons.mpr ⟨listing, listings⟩, rfl⟩

/-- Every declaration is from a source file below the directory that no excluded directory holds. -/
theorem Listing.file_of_mem {readings : List (Reading fs.parser root)} (h : Listing fs exclusions root readings)
    {d : Declaration} (hd : d ∈ declarations readings) :
    ∃ r ∈ readings, d ∈ r.types ∧ r.entry ∈ fs.below root ∧
      (∀ c ∈ r.entry.components.dropLast, c ∉ exclusions) ∧ d.sourceFile = some r.path := by
  obtain ⟨r, hr, hd⟩ := List.mem_flatMap.mp hd
  have mem := h.perm.subset (List.mem_map_of_mem hr)
  obtain ⟨below, included⟩ := List.mem_filter.mp mem
  refine ⟨r, hr, hd, below, ?_, r.sourceFile d hd⟩
  simpa using (Bool.and_eq_true_iff.mp included).2

/-! ### Where a reading fails -/

variable {e : Error}

theorem fails_readFiles {es : List FileEntry} (h : Fails (readFiles parser root es) s e s') :
    ∃ entry ∈ es, ∃ s s', Fails (readFile parser root entry) s e s' := by
  induction es generalizing s with
  | nil =>
    rw [readFiles] at h
    exact absurd h fails_pure
  | cons entry es ih =>
    rw [readFiles] at h
    rcases fails_bind.mp h with h | ⟨first, s₁, -, h⟩
    · exact ⟨entry, List.mem_cons_self, s, s', h⟩
    rcases fails_bind.mp h with h | ⟨rest, s₂, -, h⟩
    · obtain ⟨entry', mem, h⟩ := ih h
      exact ⟨entry', List.mem_cons_of_mem entry mem, h⟩
    · exact absurd h fails_pure

theorem fails_readAll (h : Fails (readAll fs exclusions roots) s e s') :
    ∃ root ∈ roots, ∃ entry ∈ entries fs exclusions root, ∃ s s', Fails (readFile fs.parser root entry) s e s' := by
  induction roots generalizing s with
  | nil =>
    rw [readAll] at h
    exact absurd h fails_pure
  | cons root roots ih =>
    rw [readAll] at h
    rcases fails_bind.mp h with h | ⟨first, s₁, -, h⟩
    · exact ⟨root, List.mem_cons_self, fails_readFiles h⟩
    rcases fails_bind.mp h with h | ⟨rest, s₂, -, h⟩
    · obtain ⟨root', mem, h⟩ := ih h
      exact ⟨root', List.mem_cons_of_mem root mem, h⟩
    · exact absurd h fails_pure

end Sources
end TypeAtlas
