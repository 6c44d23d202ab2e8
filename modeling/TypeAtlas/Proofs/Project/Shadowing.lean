import TypeAtlas.Proofs.Project.Filling
import TypeAtlas.Proofs.Project.Listing
import TypeAtlas.Proofs.Project.Supertypes

/-! Which declaration of a name a project that has been read gives: the first in the project itself, else the
first in its libraries, else the platform's. -/

namespace TypeAtlas

namespace Project

open Sources Syntax Work

variable {p : Project} {fs : Files} {s : State} {types : List Declaration}

/-- What a project in the state `s` gives: its types are the first declarations of each name in its own source
files, and a name is looked up there, then in its libraries, then in the platform. -/
structure Shadowing (p : Project) (fs : Files) (types : List Declaration) (s : State)
    (own : List (Reading fs.parser p.root)) (libraries : List (Directory fs.parser)) : Prop where
  own_listing : Listing fs p.exclusions p.root own
  own_outlined : ∀ r ∈ own, Outlined (some r.path) none r.file.outline r.types
  library_roots : libraries.map (·.1) = p.libraries
  library_listings : ∀ l ∈ libraries, Listing fs p.exclusions l.1 l.2
  types_eq : types = ((declarations own).map (·.name)).eraseDups.filterMap (Index.ofList (declarations own))
  names_eq : types.map (·.name) = ((declarations own).map (·.name)).eraseDups
  nodup : (types.map (·.name)).Nodup
  types_again : ∀ fs', p.types fs' s = ((.ok types, []), s)
  find_eq : ∀ fs' n, p.find fs' n s = ((.ok ((Index.ofList types n).or
    ((Index.ofList (libraries.flatMap (declarations ·.2)) n).or (Platform.index n))), []), s)
  find_first : ∀ n, (p.find fs n {}).1.1 = (p.find fs n s).1.1
  name_of_find : ∀ fs' n d, (p.find fs' n s).1.1 = .ok (some d) → d.name = n
  from_project : ∀ d ∈ types, ∃ r ∈ own, d ∈ r.types ∧ r.entry ∈ fs.below p.root ∧
    (∀ c ∈ r.entry.components.dropLast, c ∉ p.exclusions) ∧ d.sourceFile = some r.path
  not_library : ∀ l ∈ libraries, ∀ r ∈ l.2, r.path ∉ own.map (·.path) → ∀ d ∈ r.types, d ∉ types
  not_platform : ∀ d ∈ Platform.types, d ∉ types

theorem sourceFile_of_platform : ∀ d ∈ Platform.types, d.sourceFile = none := by decide +kernel

theorem shadowing (p : Project) (fs : Files) (types : List Declaration) (h : (p.types fs {}).1.1 = .ok types) :
    ∃ own libraries, Shadowing p fs types (p.types fs {}).2 own libraries := by
  obtain ⟨own, libraries, s, warnings, own_listing, roots, listings, rfl, rfl, -, state⟩ := filled_of_types h
  rw [state]
  set s := State.filled (declarations own) (libraries.flatMap (declarations ·.2)) with hs
  have subset (d : Declaration) (hd : d ∈ s.types.declarations) : d ∈ declarations own := by
    obtain ⟨pre, post, eq, -⟩ := Table.mem_ofFirst.mp hd
    rw [eq]
    simp
  have find_eq (fs' : Files) (n : String) : p.find fs' n s = ((.ok ((Index.ofList s.types.declarations n).or
      ((Index.ofList (libraries.flatMap (declarations ·.2)) n).or (Platform.index n))), []), s) := by
    have found : s.index.find? n = ((Index.ofList s.types.declarations n).or
        (Index.ofList (libraries.flatMap (declarations ·.2)) n)).or (Platform.index n) := by
      have own_index : Index.ofList s.types.declarations = Index.ofList (declarations own) :=
        Table.ofList_declarations _
      rw [own_index, hs, find?_filled]
      rfl
    rw [Option.or_assoc] at found
    rw [find, ask_of_loaded rfl, found]
  have find_first (n : String) : (p.find fs n {}).1.1 = (p.find fs n s).1.1 := by
    rw [find, ask_of_loaded (s := s) rfl]
    rcases p.ask_new fs with ⟨c, s', -, -, -, answers⟩ | ⟨e, -, answers⟩
    · rw [Project.types, answers] at state
      rw [answers, show s' = s from congrArg Prod.snd state]
    · rw [Project.types, answers] at h
      cases h
  have from_own (d : Declaration) (hd : d ∈ s.types.declarations) := own_listing.file_of_mem (subset d hd)
  refine ⟨own, libraries, own_listing, fun r _ => r.outlined, roots, listings, Table.declarations_ofFirst _,
    Table.names_eq_eraseDups _, Table.nodup_names_ofFirst _, fun fs' => ask_of_loaded rfl, find_eq, find_first,
    ?found, from_own, ?library, ?platform⟩
  case found =>
    intro fs' n d hd
    rw [find_eq, Except.ok.injEq] at hd
    rcases Option.or_eq_some_iff.mp hd with hd | ⟨-, hd⟩
    · exact Index.name_of_ofList_eq hd
    · rcases Option.or_eq_some_iff.mp hd with hd | ⟨-, hd⟩
      · exact Index.name_of_ofList_eq hd
      · exact Index.name_of_ofList_eq hd
  case library =>
    intro l hl r hr other d hd mem
    obtain ⟨r', hr', -, -, -, file⟩ := from_own d mem
    have same : r'.path = r.path := Option.some.inj (file.symm.trans (r.sourceFile d hd))
    exact other (List.mem_map.mpr ⟨r', hr', same⟩)
  case platform =>
    intro d hd mem
    obtain ⟨r, -, -, -, -, file⟩ := from_own d mem
    rw [sourceFile_of_platform d hd] at file
    cases file

/-- `class A { class X {} } class A {}` and `class A { class Y {} }` in a project, with `class Z {}` in an excluded
directory, over two libraries that declare `A`, `C` and `java.lang.Object`, and `C`. -/
def layeredFiles : Files where
  isDirectory := fun _ => true
  below := fun root =>
    let file (types : List Tree) : Content := .parsed ⟨⟨.other "program", true, none, "", 1, types⟩, false⟩
    let type (name : String) (members : List String) : Tree := typeNode .classDeclaration name []
      (members.map fun m => typeNode .classDeclaration m [] [])
    match root.components with
    | ["p"] => [⟨["b", "A.java"], file [type "A" ["Y"]]⟩, ⟨["a", "A.java"], file [type "A" ["X"], type "A" []]⟩,
        ⟨["target", "Z.java"], file [type "Z" []]⟩]
    | ["l"] => [⟨["A.java"], file [type "A" [], type "C" [], type "java.lang.Object" []]⟩]
    | ["m"] => [⟨["C.java"], file [type "C" []]⟩]
    | _ => []
  writeFailure? := fun _ => none
  parser := .ofText

def layeredProject : Project where
  root := ⟨false, ["p"]⟩
  libraries := [⟨false, ["l"]⟩, ⟨false, ["m"]⟩]
  name := "p"

def layeredTypes : List Declaration := [
  { name := "A", scope := some (.lexical { enclosing := ["A"] }), sourceFile := some "p/a/A.java" },
  { name := "A.X", outer := some "A", scope := some (.lexical { enclosing := ["A.X", "A"] }),
    sourceFile := some "p/a/A.java" },
  { name := "A.Y", outer := some "A", scope := some (.lexical { enclosing := ["A.Y", "A"] }),
    sourceFile := some "p/b/A.java" }]

theorem shadowing_layered : (layeredProject.types layeredFiles {}).1.1 = .ok layeredTypes ∧
    ∃ own libraries, Shadowing layeredProject layeredFiles layeredTypes (layeredProject.types layeredFiles {}).2
      own libraries := by
  have load : (layeredProject.load layeredFiles).outcome.1.map (·.types) = .ok layeredTypes := by cbv
  have types := (types_new _ _).trans load
  exact ⟨types, shadowing _ _ _ types⟩

end Project
end TypeAtlas
