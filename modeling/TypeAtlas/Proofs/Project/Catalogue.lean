import TypeAtlas.Project.Basic

/-! A project that has been read, as lists of its declarations. -/

namespace TypeAtlas

structure Catalogue where
  types : List Declaration
  libraryTypes : List Declaration

namespace Catalogue

def find? (c : Catalogue) : Index :=
  ((Index.ofList c.types).orElse (Index.ofList c.libraryTypes)).orElse Platform.index

end Catalogue

namespace Project

/-- The first declaration of each name, with a warning for every other; `kept` are those before. -/
def keepFirst (kept : List Declaration) : List Declaration → Warned (List Declaration)
  | [] => return kept
  | d :: ds => do
    if kept.any (·.name == d.name) then
      warn (.duplicateDeclaration d.name d.sourceFile)
      keepFirst kept ds
    else keepFirst (kept ++ [d]) ds

def load (p : Project) (fs : Files) : Warned Catalogue := do
  let libraryTypes ← Sources.readAll fs p.exclusions p.libraries
  let types ← keepFirst [] (← Sources.read fs p.exclusions p.root)
  return ⟨types, libraryTypes⟩

def provider (p : Project) (fs : Files) (c : Catalogue) : Provider :=
  { Provider.ofIndex p.name c.types c.find? with isPresent := p.isPresent fs }

end Project
end TypeAtlas
