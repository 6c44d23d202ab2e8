import TypeAtlas.Extraction.Project
import TypeAtlas.Platform
import TypeAtlas.Project.Sources

/-! A project: a directory of sources with the source directories of its libraries. It is read as a
whole when it is first asked for something; a reading that fails is tried again by the next request, and
one that succeeds is kept. Types of the project come before those of its libraries, and these before
the platform's. -/

namespace TypeAtlas

structure Project where
  root : Path
  libraries : List Path := []
  exclusions : List String := Sources.defaultExclusions
  name : String

namespace Project

def nameFor (workingDirectory root : Path) (name : Option String) : String :=
  match name with
  | some name => if name = "" then (root.resolve workingDirectory).name else name
  | none => (root.resolve workingDirectory).name

/-- What a project remembers between requests: its own types, all that it can find, and whether it has
been read. -/
structure State where
  types : Table := {}
  index : Table := {}
  isLoaded : Bool := false
  deriving DecidableEq

/-- Work on the tables of a project. It may warn, the latest warning first, and what it has entered by
the time it fails stays. -/
abbrev Work := ExceptT Error (StateM (State × List Warning))

namespace Work

/-- Work that does not come near the tables. -/
def aside {α : Type} (x : Warned α) : Work α := ExceptT.mk fun (s, warnings) =>
  let (result, warnings) := (x.run.run warnings).run
  (result, (s, warnings))

def state : Work State := return (← get).1

def change (f : State → State) : Work Unit := modify fun (s, warnings) => (f s, warnings)

end Work

/-- Enters a type of the project. A name that has one keeps it. -/
def enter (d : Declaration) : Work Unit := do
  if (← Work.state).types.find?.knows d.name then
    Work.aside (warn (.duplicateDeclaration d.name d.sourceFile))
  else Work.change fun s => { s with types := s.types.set d.name d }

def enterAll : List Declaration → Work Unit
  | [] => return ()
  | d :: ds => do
    enter d
    enterAll ds

/-- Lets all types be found: those of the project take the place of those of libraries, and these of
those of the platform. -/
def State.publish (libraryTypes : Table) (s : State) : State where
  types := s.types
  index := ((s.index.update Platform.table).update libraryTypes).update s.types
  isLoaded := true

/-- Reads the libraries and then the project itself, unless that has been done. -/
def fill (p : Project) (fs : Files) : Work Unit := do
  if (← Work.state).isLoaded then return ()
  let libraryTypes ← Work.aside (Sources.readAll fs p.exclusions p.libraries)
  let types ← Work.aside (Sources.read fs p.exclusions p.root)
  enterAll types
  Work.change (·.publish (.ofFirst libraryTypes))

def isPresent (p : Project) (fs : Files) : Bool := fs.isDirectory p.root

def State.provider (s : State) (p : Project) (fs : Files) : Provider :=
  { Provider.ofIndex p.name s.types.declarations s.index.find? with isPresent := p.isPresent fs }

/-- A request: it gives an answer or fails, with warnings, and leaves what is remembered after it. -/
abbrev Request (α : Type) := State → (Except Error α × List Warning) × State

def Work.perform {α : Type} (x : Work α) : Request α := fun s =>
  let (result, s, warnings) := (x.run.run (s, [])).run
  ((result, warnings.reverse), s)

def ask {α : Type} (p : Project) (fs : Files) (answer : State → Except Error α) : Request α :=
  Work.perform do
    p.fill fs
    answer (← Work.state)

def types (p : Project) (fs : Files) : Request (List Declaration) := p.ask fs fun s => .ok s.types.declarations

def find (p : Project) (fs : Files) (name : String) : Request (Option Declaration) :=
  p.ask fs fun s => .ok (s.index.find? name)

/-- The model of the project. A project whose directory is missing is not read. -/
def extract (p : Project) (fs : Files) (settings : Settings) : Request Model := fun s =>
  if p.isPresent fs then
    p.ask fs (fun s => Extraction.result settings (some (s.provider p fs))) s
  else ((.error (.missingProject p.name), []), s)

end Project
end TypeAtlas
