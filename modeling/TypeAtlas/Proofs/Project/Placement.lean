import Mathlib.Data.List.Perm.Basic
import TypeAtlas.Proofs.Lists
import TypeAtlas.Proofs.Project.Reached
import TypeAtlas.Proofs.Scope.Agreement
import TypeAtlas.Proofs.Syntax.Paths

/-! Names mean the same wherever files lie. Paths decide in which order files are read, and so which of several
declarations of a name is kept. Where no name is declared twice the same files give the same declarations; and
as a scope looks names up only when all files have been read, it finds what files after its own declare. -/

namespace TypeAtlas

open Syntax

/-- The declarations of a file by its content alone, none if it cannot be read. -/
def Content.types (parser : Parser) (c : Content) : List Declaration :=
  ((Sources.parse parser "" c >>= fun f => (f.read none).outcome.1).toOption).getD []

namespace Index

theorem map_unplaced_ofList (ds : List Declaration) (n : String) :
    (ofList ds n).map (·.unplaced) = ofList (ds.map (·.unplaced)) n := by
  rw [ofList, ofList, List.find?_map]
  rfl

theorem ofList_perm {ds es : List Declaration} (perm : ds.Perm es) (nodup : (es.map (·.name)).Nodup) :
    ofList ds = ofList es := funext (find?_key_perm perm nodup)

end Index

namespace Sources

variable {fs : Files} {parser : Parser} {exclusions : List String} {root : Path}

/-- What the source files below a directory hold, without those in excluded directories. -/
def contents (fs : Files) (exclusions : List String) (root : Path) : List Content :=
  ((fs.below root).filter (isIncluded exclusions)).map (·.content)

theorem parse_of_parse {path path' : String} {c : Content} {f : ParsedFile} (h : parse parser path c = .ok f) :
    parse parser path' c = .ok f := by
  cases c with
  | directory => cases h
  | parsed file => exact h
  | bytes bytes =>
    unfold parse at h ⊢
    cases hs : Text.ofBytes? bytes with
    | none => simp [hs] at h
    | some source => simpa [hs] using h

/-- What is read from a file is in its content, but for the path. -/
theorem Reading.unplaced_types (r : Reading parser root) :
    r.types.map (·.unplaced) = r.entry.content.types parser := by
  obtain ⟨s, s', h⟩ := r.read
  have alone : (r.file.read none).outcome.1 = .ok (r.types.map (·.unplaced)) :=
    outcome_eq_ok.mpr (carried_read r.file _ h [])
  have parsed : parse parser "" r.entry.content = .ok r.file := parse_of_parse r.parsed
  rw [Content.types, parsed]
  exact (congrArg (·.toOption.getD []) alone).symm

theorem Listing.unplaced_perm {readings : List (Reading fs.parser root)} (h : Listing fs exclusions root readings) :
    ((declarations readings).map (·.unplaced)).Perm ((contents fs exclusions root).flatMap (·.types fs.parser)) := by
  have types : (declarations readings).map (·.unplaced) =
      ((readings.map (·.entry)).map (·.content)).flatMap (·.types fs.parser) := by
    rw [declarations, List.map_flatMap, List.map_map, List.flatMap_map]
    exact List.flatMap_congr fun r _ => r.unplaced_types
  rw [types]
  exact (h.perm.map _).flatMap_right _

theorem unplaced_perm_of_listings (directories : List (Directory fs.parser))
    (h : ∀ d ∈ directories, Listing fs exclusions d.1 d.2) :
    ((directories.flatMap (declarations ·.2)).map (·.unplaced)).Perm
      (((directories.map (·.1)).map (contents fs exclusions)).flatten.flatMap (·.types fs.parser)) := by
  induction directories with
  | nil => exact .nil
  | cons d directories ih =>
    obtain ⟨first, rest⟩ := List.forall_mem_cons.mp h
    simp only [List.flatMap_cons, List.map_append, List.map_cons, List.flatten_cons, List.flatMap_append]
    exact first.unplaced_perm.append (ih rest)

end Sources

namespace Project

open Sources

variable {p p' : Project} {fs fs' : Files} {types types' : List Declaration}

def ownContents (p : Project) (fs : Files) : List Content := contents fs p.exclusions p.root

/-- What the source files hold, library by library. -/
def libraryContents (p : Project) (fs : Files) : List (List Content) := p.libraries.map (contents fs p.exclusions)

/-- The same file contents in the project and in each library, and the same parser. -/
structure SameContents (p p' : Project) (fs fs' : Files) : Prop where
  own : (p.ownContents fs).Perm (p'.ownContents fs')
  libraries : List.Forall₂ List.Perm (p.libraryContents fs) (p'.libraryContents fs')
  parser : fs.parser = fs'.parser

/-- No name is declared twice within the project or within its libraries. -/
structure DeclaresOnce (p : Project) (fs : Files) : Prop where
  own : (((p.ownContents fs).flatMap (·.types fs.parser)).map (·.name)).Nodup
  libraries : (((p.libraryContents fs).flatten.flatMap (·.types fs.parser)).map (·.name)).Nodup

theorem SameContents.own_types (h : SameContents p p' fs fs') :
    ((p.ownContents fs).flatMap (·.types fs.parser)).Perm ((p'.ownContents fs').flatMap (·.types fs'.parser)) :=
  h.parser ▸ h.own.flatMap_right _

theorem SameContents.library_types (h : SameContents p p' fs fs') :
    ((p.libraryContents fs).flatten.flatMap (·.types fs.parser)).Perm
      ((p'.libraryContents fs').flatten.flatMap (·.types fs'.parser)) :=
  h.parser ▸ (List.Perm.flatten_congr h.libraries).flatMap_right _

theorem DeclaresOnce.of_sameContents (h : DeclaresOnce p fs) (same : SameContents p p' fs fs') :
    DeclaresOnce p' fs' where
  own := (same.own_types.map _).nodup_iff.mp h.own
  libraries := (same.library_types.map _).nodup_iff.mp h.libraries

namespace Contents

variable (c : Contents p)

theorem own_perm :
    ((declarations c.own).map (·.unplaced)).Perm ((p.ownContents c.files).flatMap (·.types c.files.parser)) :=
  c.own_listing.unplaced_perm

theorem libraries_perm :
    (c.libraryTypes.map (·.unplaced)).Perm ((p.libraryContents c.files).flatten.flatMap (·.types c.files.parser)) := by
  rw [libraryContents, ← c.library_roots]
  exact unplaced_perm_of_listings c.libraries c.library_listings

variable (once : DeclaresOnce p c.files)

include once

/-- All declarations of the project are kept. -/
theorem types_eq_declarations : c.types = declarations c.own := by
  have names := (c.own_perm.map (·.name)).nodup_iff.mpr once.own
  rw [List.map_map] at names
  exact Table.declarations_of_nodup names

/-- What is found is in the contents of the files or the platform's. -/
theorem unplaced_find? (n : String) : (c.state.index.find? n).map (·.unplaced) =
    ((Index.ofList ((p.ownContents c.files).flatMap (·.types c.files.parser)) n).or
      (Index.ofList ((p.libraryContents c.files).flatten.flatMap (·.types c.files.parser)) n)).or
        ((Platform.index n).map (·.unplaced)) := by
  rw [c.find?_eq, Index.orElse, Index.orElse, Option.map_or, Option.map_or, Index.map_unplaced_ofList,
    Index.map_unplaced_ofList, c.types_eq_declarations once, Index.ofList_perm c.own_perm once.own,
    Index.ofList_perm c.libraries_perm once.libraries]

end Contents

theorem contents_of_types (h : (p.types fs {}).1.1 = .ok types) :
    ∃ c : Contents p, c.files = fs ∧ types = c.types ∧ (p.types fs {}).2 = c.state := by
  obtain ⟨own, libraries, s, warnings, own_listing, roots, listings, rfl, rfl, -, state⟩ := filled_of_types h
  exact ⟨⟨fs, own, libraries, own_listing, roots, listings⟩, rfl, rfl, congrArg Prod.snd state⟩

/-- Projects in the states `s` and `s'`, with these types of their own, have the same declarations but for their
source files, and every name means the same in each of their scopes. -/
structure SameMeanings (p p' : Project) (types types' : List Declaration) (s s' : State) : Prop where
  types_perm : (types.map (·.unplaced)).Perm (types'.map (·.unplaced))
  find_eq : ∀ fs fs' n, (p.find fs n s).1.1.map (·.map (·.unplaced)) = (p'.find fs' n s').1.1.map (·.map (·.unplaced))
  scope_eq : ∀ fs fs' n d d', (p.find fs n s).1.1 = .ok (some d) → (p'.find fs' n s').1.1 = .ok (some d') →
    d.scope = d'.scope ∧ d.methods.map (·.scope) = d'.methods.map (·.scope)
  resolve_eq : ∀ (scope : Scope) (name : String) (inherited : Bool),
    scope.resolve s.index.find? name inherited = scope.resolve s'.index.find? name inherited

theorem placement (p p' : Project) (fs fs' : Files) (types types' : List Declaration)
    (same : SameContents p p' fs fs') (once : DeclaresOnce p fs) (loads : (p.types fs {}).1.1 = .ok types)
    (loads' : (p'.types fs' {}).1.1 = .ok types') :
    SameMeanings p p' types types' (p.types fs {}).2 (p'.types fs' {}).2 := by
  have once' := once.of_sameContents same
  obtain ⟨c, rfl, rfl, state⟩ := contents_of_types loads
  obtain ⟨c', rfl, rfl, state'⟩ := contents_of_types loads'
  rw [state, state']
  have found (n : String) : (c.state.index.find? n).map (·.unplaced) = (c'.state.index.find? n).map (·.unplaced) := by
    rw [c.unplaced_find? once, c'.unplaced_find? once', Index.ofList_perm same.own_types once'.own,
      Index.ofList_perm same.library_types once'.libraries]
  have agree : c.state.index.find?.Agree c'.state.index.find? := by
    intro n
    have lineage := congrArg (·.map (·.lineage)) (found n)
    rwa [Option.map_map, Option.map_map] at lineage
  refine ⟨?types, ?find, ?scope, fun scope => scope.resolve_congr agree⟩
  case types =>
    rw [c.types_eq_declarations once, c'.types_eq_declarations once']
    exact (c.own_perm.trans same.own_types).trans c'.own_perm.symm
  case find =>
    intro fs fs' n
    rw [find, find, ask_of_loaded rfl, ask_of_loaded rfl]
    exact congrArg Except.ok (found n)
  case scope =>
    intro fs fs' n d d' hd hd'
    rw [find, ask_of_loaded rfl, Except.ok.injEq] at hd hd'
    have alike := found n
    rw [hd, hd'] at alike
    have same : d.unplaced = d'.unplaced := Option.some.inj alike
    exact ⟨congrArg (·.scope) same, congrArg (·.methods.map (·.scope)) same⟩

/-- Two projects with the files `class A extends B {}` and `class B { class C extends A {} }`, which the first reads in
this order and the second in the other, each over a library with `class L extends A {}`. -/
def cyclicFiles : Files where
  isDirectory := fun _ => true
  below := fun root =>
    let file (type : Tree) : Content := .parsed ⟨⟨.other "program", true, none, "", 1, [type]⟩, false⟩
    let a := file (typeNode .classDeclaration "A" [clauseNode .superclass "B"] [])
    let b := file (typeNode .classDeclaration "B" [] [typeNode .classDeclaration "C" [clauseNode .superclass "A"] []])
    match root.components with
    | ["p"] => [⟨["A.java"], a⟩, ⟨["B.java"], b⟩]
    | ["q"] => [⟨["b", "A.java"], a⟩, ⟨["a", "B.java"], b⟩]
    | _ => [⟨["L.java"], file (typeNode .classDeclaration "L" [clauseNode .superclass "A"] [])⟩]
  writeFailure? := fun _ => none
  parser := .ofText

def cyclicProject (name : String) : Project where
  root := ⟨false, [name]⟩
  libraries := [⟨false, ["l"]⟩]
  name := name

theorem placement_cyclic : ∃ types types' : List Declaration,
    types.map (·.name) = ["A", "B", "B.C"] ∧ types'.map (·.name) = ["B", "B.C", "A"] ∧
      SameMeanings (cyclicProject "p") (cyclicProject "q") types types'
        ((cyclicProject "p").types cyclicFiles {}).2 ((cyclicProject "q").types cyclicFiles {}).2 := by
  have same : SameContents (cyclicProject "p") (cyclicProject "q") cyclicFiles cyclicFiles :=
    ⟨.refl _, .cons (.refl _) .nil, rfl⟩
  have own : (((cyclicProject "p").ownContents cyclicFiles).flatMap (·.types cyclicFiles.parser)).map (·.name) =
      ["A", "B", "B.C"] := by
    cbv
  have library : (((cyclicProject "p").libraryContents cyclicFiles).flatten.flatMap
      (·.types cyclicFiles.parser)).map (·.name) = ["L"] := by
    cbv
  have once : DeclaresOnce (cyclicProject "p") cyclicFiles := ⟨own ▸ by decide, library ▸ by decide⟩
  have loads : ((cyclicProject "p").types cyclicFiles {}).1.1.toOption.map (·.map (·.name)) =
      some ["A", "B", "B.C"] := by
    rw [types_new]
    cbv
  have loads' : ((cyclicProject "q").types cyclicFiles {}).1.1.toOption.map (·.map (·.name)) =
      some ["B", "B.C", "A"] := by
    rw [types_new]
    cbv
  obtain ⟨types, h, names⟩ := exists_ok_of_toOption loads
  obtain ⟨types', h', names'⟩ := exists_ok_of_toOption loads'
  exact ⟨types, types', names, names', placement _ _ _ _ _ _ same once h h'⟩

end Project
end TypeAtlas
