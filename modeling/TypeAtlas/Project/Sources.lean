import TypeAtlas.Project.Files
import TypeAtlas.Text.Newline

/-! The source files below a directory and the declarations in them. Files are taken in the order of
their paths; a directory with an excluded name is left out with all that is below it. -/

namespace TypeAtlas

namespace Sources

/-- Names of directories that hold no sources of a project's own. -/
def defaultExclusions : List String := ["build", "target", "bin", "out", ".git", ".gradle", ".idea"]

def isSourceName (name : String) : Bool := ".java".toList.isSuffixOf name.toList

/-- Whether an entry is a source file and no directory on the way to it is excluded. -/
def isIncluded (exclusions : List String) (e : FileEntry) : Bool :=
  e.components.getLast?.any isSourceName && !e.components.dropLast.any exclusions.contains

def entries (fs : Files) (exclusions : List String) (root : Path) : List FileEntry :=
  ((fs.below root).filter (isIncluded exclusions)).mergeSort fun a b =>
    Path.inOrder a.components b.components

def paths (fs : Files) (exclusions : List String) (root : Path) : List Path :=
  (entries fs exclusions root).map fun e => root.below e.components

def parse (parser : Syntax.Parser) (path : String) : Content → Except Error Syntax.ParsedFile
  | .directory => .error (.unreadable path)
  | .parsed file => .ok file
  | .bytes bytes =>
    match Text.ofBytes? bytes with
    | none => .error (.undecodable path)
    | some source => .ok (parser source)

def readFile (parser : Syntax.Parser) (root : Path) (e : FileEntry) : Warned (List Declaration) := do
  let path := (root.below e.components).toString
  (← parse parser path e.content).read (some path)

def readFiles (parser : Syntax.Parser) (root : Path) : List FileEntry → Warned (List Declaration)
  | [] => return []
  | e :: es => do
    let first ← readFile parser root e
    let rest ← readFiles parser root es
    return first ++ rest

def read (fs : Files) (exclusions : List String) (root : Path) : Warned (List Declaration) :=
  readFiles fs.parser root (entries fs exclusions root)

def readAll (fs : Files) (exclusions : List String) : List Path → Warned (List Declaration)
  | [] => return []
  | root :: roots => do
    let first ← read fs exclusions root
    let rest ← readAll fs exclusions roots
    return first ++ rest

end Sources
end TypeAtlas
