import TypeAtlas.Extraction.Classification
import TypeAtlas.Model.Registry

/-! The model of a project: first an entry for every type of the project, then a stub for every type
they refer to that the provider knows from elsewhere. What only a stub refers to gets none. -/

namespace TypeAtlas

open Extraction

namespace Classifier

/-- The entry of a type declared elsewhere, if the provider knows it. -/
def stub? (c : Classifier) (name : String) : Extraction (Option Entry) := do
  match ← find c.provider name with
  | none => return none
  | some d => return some (← c.classify d)

/-- Adds stubs for the names that are new to the model, one after the other until one fails; gives
the model so far and the number of stubs added or the failure. -/
def addStubs (c : Classifier) : List String → Model → StateM Session (Model × Except Error Nat)
  | [], m => return (m, .ok 0)
  | name :: names, m =>
    if m.contains name then c.addStubs names m
    else do
      match ← (c.stub? name).run with
      | .error e => return (m, .error e)
      | .ok none => c.addStubs names m
      | .ok (some e) =>
        match m.addExternal e with
        | .error e => return (m, .error e)
        | .ok m => do
          let (m, added) ← c.addStubs names m
          return (m, added.map (· + 1))

/-- Adds the stubs for a collection of names, in the order of code points. -/
def addExternals (c : Classifier) (names : List String) (m : Model) :
    StateM Session (Model × Except Error Nat) :=
  c.addStubs (sortedNames names) m

def addTypes (c : Classifier) : List Declaration → Model → Extraction Model
  | [], m => return m
  | d :: ds, m => do
    let m ← m.add (← c.classify d)
    c.addTypes ds m

end Classifier

namespace Extraction

def extract (settings : Settings) : Option Provider → Extraction Model
  | none => throw .noProject
  | some p => do
    ask .presence
    if !p.isPresent then throw (.missingProject p.name)
    let c := Classifier.ofSettings p settings
    ask .types
    let m ← c.addTypes (← p.types) { project := p.name }
    if settings.withExternals then
      match ← ExceptT.lift (c.addExternals (← get).referenced m) with
      | (m, .ok _) => return m.freeze
      | (_, .error e) => throw e
    else return m.freeze

def result (settings : Settings) (p : Option Provider) : Except Error Model :=
  ((extract settings p).run {}).1

end Extraction
end TypeAtlas
