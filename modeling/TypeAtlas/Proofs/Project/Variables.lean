import TypeAtlas.Proofs.Extraction.Variables
import TypeAtlas.Proofs.Project.Reached

/-! Stubs that type variables bring in. A type variable is looked up by its bare name once the types of a
project have been gone over, so a library type of this name in the unnamed package becomes a stub that
nothing refers to; no other type does. -/

namespace TypeAtlas

namespace Project

open Sources Syntax

variable {p : Project} {fs : Files} {settings : Settings} {m : Model}

theorem afterHead?_of_platform : ∀ d ∈ Platform.types, Text.afterHead? d.name ≠ none := by decide +kernel

theorem Contents.find?_ne_none_iff (c : Contents p) (n : String) : c.state.index.find? n ≠ none ↔
    n ∈ c.types.map (·.name) ∨ n ∈ c.libraryTypes.map (·.name) ∨ n ∈ Platform.types.map (·.name) := by
  rw [c.find?_eq, Ne, Index.orElse, Option.or_eq_none_iff, Index.orElse, Option.or_eq_none_iff, Index.ofList_eq_none,
    Index.ofList_eq_none, Platform.index, Index.ofList_eq_none]
  tauto

/-- The stubs of a model and the names written in the types of the project. -/
structure VariableStubs (c : Contents p) (fs : Files) (settings : Settings) (m : Model) : Prop where
  types_eq : m.types.map (·.fullName) = c.types.map (·.name)
  mentioned : ∀ n ∈ m.externals.map (·.fullName), ∃ d ∈ c.types, ∃ u ∈ d.mentions, u.Names (c.state.provider p fs) n
  /-- A type variable is referred to by its own name, and there is a stub for it just in case a library
  declares this name and the project does not. -/
  variable_iff : ∀ d ∈ c.types, ∀ u ∈ d.mentions, u.IsVariable →
    (∀ n, u.Names (c.state.provider p fs) n ↔ n = Text.erase u.written) ∧
      (Text.erase u.written ∈ m.externals.map (·.fullName) ↔
        settings.withExternals = true ∧ isPrimitiveName (Text.erase u.written) = false ∧
          Text.erase u.written ∉ c.types.map (·.name) ∧ Text.erase u.written ∈ c.libraryTypes.map (·.name))
  /-- A stub that only type variables refer to is of a library type in the unnamed package. -/
  apart : ∀ n ∈ m.externals.map (·.fullName),
    (∃ d ∈ c.types, ∃ u ∈ d.mentions, u.Names (c.state.provider p fs) n ∧ ¬ u.IsVariable) ∨
      (n ∈ c.libraryTypes.map (·.name) ∧ Text.afterHead? n = none)

theorem variableStubs_of_result (c : Contents p)
    (h : Extraction.result settings (some (c.state.provider p fs)) = .ok m) : VariableStubs c fs settings m := by
  have resolves (s : Scope) (n : String) :
      (c.state.provider p fs).resolve s n = s.resolve c.state.index.find? n true := rfl
  have platform {n : String} (simple : Text.afterHead? n = none) : n ∉ Platform.types.map (·.name) := by
    intro mem
    obtain ⟨d, hd, rfl⟩ := List.mem_map.mp mem
    exact afterHead?_of_platform d hd simple
  obtain ⟨ds, hds, types_eq, externals⟩ := Extraction.externals_iff_mentioned (fun n d => c.name_of_find?) h
  obtain rfl : c.types = ds := Except.ok.inj hds
  have stub (n : String) : n ∈ m.externals.map (·.fullName) ↔ settings.withExternals = true ∧
      (∃ d ∈ c.types, ∃ u ∈ d.mentions, u.Names (c.state.provider p fs) n) ∧ isPrimitiveName n = false ∧
        n ∉ c.types.map (·.name) ∧ (n ∈ c.libraryTypes.map (·.name) ∨ n ∈ Platform.types.map (·.name)) := by
    have known := c.find?_ne_none_iff n
    rw [externals]
    constructor
    · rintro ⟨hw, named, proper, new, found⟩
      exact ⟨hw, named, proper, new, (known.mp found).resolve_left new⟩
    · rintro ⟨hw, named, proper, new, found⟩
      exact ⟨hw, named, proper, new, known.mpr (.inr found)⟩
  have own {d : Declaration} {u : Mention} (hu : u ∈ d.mentions) (hv : u.IsVariable) (n : String) :
      u.Names (c.state.provider p fs) n ↔ n = Text.erase u.written := by
    have names := Mention.names_of_isVariable resolves hu hv
    exact ⟨fun h => h.unique names, fun h => h ▸ names⟩
  refine ⟨types_eq, fun n hn => ((stub n).mp hn).2.1, ?_, ?_⟩
  · intro d hd u hu hv
    have names := (own hu hv (Text.erase u.written)).mpr rfl
    obtain ⟨s, -, -, simple⟩ := id hv
    refine ⟨own hu hv, ?_⟩
    rw [stub, or_iff_left (platform simple)]
    constructor
    · rintro ⟨hw, -, rest⟩
      exact ⟨hw, rest⟩
    · rintro ⟨hw, rest⟩
      exact ⟨hw, ⟨d, hd, u, hu, names⟩, rest⟩
  · intro n hn
    obtain ⟨-, ⟨d, hd, u, hu, names⟩, -, -, found⟩ := (stub n).mp hn
    by_cases hv : u.IsVariable
    · obtain rfl := (own hu hv n).mp names
      obtain ⟨s, -, -, simple⟩ := hv
      exact .inr ⟨found.resolve_right (platform simple), simple⟩
    · exact .inl ⟨d, hd, u, hu, names, hv⟩

theorem variableStubs (p : Project) (calls : List Call) (fs : Files) (settings : Settings) (m : Model)
    (h : (p.extract fs settings (p.after {} calls)).1.1 = .ok m) :
    ∃ c : Contents p, (p.extract fs settings (p.after {} calls)).2 = c.state ∧ VariableStubs c fs settings m := by
  rcases extract_of_reached (reached p calls) fs settings with ⟨-, eq⟩ | ⟨e, eq, -⟩ | ⟨-, c, state, eq⟩
  · cases eq.symm.trans h
  · cases eq.symm.trans h
  · exact ⟨c, state, variableStubs_of_result c (eq.symm.trans h)⟩

/-- `class Box<T> { T item; }` over a library with `class T {}`, both in the unnamed package. -/
def boxFiles : Files where
  isDirectory := fun _ => true
  below := fun root =>
    let file (type : Tree) : Content := .parsed ⟨⟨.other "program", true, none, "", 1, [type]⟩, false⟩
    let named (field : Option String) (name : String) : Tree := ⟨.typeIdentifier, true, field, name, 1, []⟩
    match root.components with
    | ["p"] => [⟨["Box.java"], file (typeNode .classDeclaration "Box"
        [⟨.other "type_parameters", true, some "type_parameters", "", 1,
          [⟨.typeParameter, true, none, "", 1, [named none "T"]⟩]⟩]
        [⟨.fieldDeclaration, true, none, "", 1, [named (some "type") "T",
          ⟨.variableDeclarator, true, some "declarator", "", 1, [⟨.identifier, true, some "name", "item", 1, []⟩]⟩]⟩])⟩]
    | ["l"] => [⟨["T.java"], file (typeNode .classDeclaration "T" [] [])⟩]
    | _ => []
  writeFailure? := fun _ => none
  parser := .ofText

def boxProject : Project where
  root := ⟨false, ["p"]⟩
  libraries := [⟨false, ["l"]⟩]
  name := "p"

theorem variableStubs_box : ∃ m, (boxProject.extract boxFiles {} (boxProject.after {} [])).1.1 = .ok m ∧
    m.externals.map (·.fullName) = ["T"] ∧
    ∃ c : Contents boxProject, (boxProject.extract boxFiles {} (boxProject.after {} [])).2 = c.state ∧
      VariableStubs c boxFiles {} m := by
  have hx : (boxProject.extract boxFiles {} (boxProject.after {} [])).1.1.toOption.map
      (fun m => m.externals.map (·.fullName)) = some ["T"] := by
    rw [after, extract_new rfl]
    cbv
  obtain ⟨m, h, hx⟩ := exists_ok_of_toOption hx
  exact ⟨m, h, hx, variableStubs boxProject [] boxFiles {} m h⟩

end Project
end TypeAtlas
