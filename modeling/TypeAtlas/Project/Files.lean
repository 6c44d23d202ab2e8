import TypeAtlas.Project.Path
import TypeAtlas.Syntax.SourceText

/-! What a project asks of the world around it: which paths are directories, what lies below one, whether a
file can be written, and how source text is parsed. Nothing is known of the parser but that it gives a tree.
`Files.ofEntries` answers from a list of files below a working directory, with the grammar of
`Syntax.Grammar` in the parser's place. -/

namespace TypeAtlas

/-- What is found in place of a file: bytes, a syntax tree that stands for them, or a directory. -/
inductive Content
  | bytes (bytes : ByteArray)
  | parsed (file : Syntax.ParsedFile)
  | directory

structure FileEntry where
  components : List String
  content : Content

inductive WriteFailure
  | missingDirectory
  | notADirectory
  deriving DecidableEq

structure Files where
  isDirectory : Path → Bool
  /-- Everything below a directory, at any depth; nothing if the path is no directory. -/
  below : Path → List FileEntry
  writeFailure? : Path → Option WriteFailure
  parser : Syntax.Parser

namespace Files

/-- The directories above a path, the nearest last. -/
def parents : List String → List (List String)
  | [] => []
  | [_] => []
  | c :: cs => [c] :: (parents cs).map (c :: ·)

/-- All files and directories, those included that only have files below them. -/
def withParents (entries : List FileEntry) : List FileEntry :=
  let listed := entries.map (·.components)
  let implied := ((listed.flatMap parents).eraseDups).filter fun p => !listed.contains p
  entries ++ implied.map (⟨·, .directory⟩)

def isFolder (entries : List FileEntry) (components : List String) : Bool :=
  components.isEmpty || entries.any fun e => match e.content with
    | .directory => e.components == components
    | _ => false

/-- What keeps a place from being entered as a directory. -/
def obstacle? (entries : List FileEntry) (place : List String) : Option WriteFailure :=
  if isFolder entries place then none
  else if entries.any (·.components == place) then some .notADirectory
  else some .missingDirectory

/-- The directory to which a path leads from a place, entering every directory on the way; else the
first obstacle. -/
def walk (entries : List FileEntry) (place : List String) :
    List String → Except WriteFailure (List String)
  | [] =>
    match obstacle? entries place with
    | some obstacle => .error obstacle
    | none => .ok place
  | c :: cs =>
    match obstacle? entries place with
    | some obstacle => .error obstacle
    | none => walk entries (if c = ".." then place.dropLast else place ++ [c]) cs

/-- The components of a directory below the working directory. -/
def folder? (entries : List FileEntry) (p : Path) : Option (List String) :=
  if p.isAbsolute then none else (walk entries [] p.components).toOption

def relativeTo (root components : List String) : Option (List String) :=
  if root.isPrefixOf components ∧ root.length < components.length then
    some (components.drop root.length)
  else none

def listBelow (entries : List FileEntry) (root : List String) : List FileEntry :=
  entries.filterMap fun e => (relativeTo root e.components).map (⟨·, e.content⟩)

/-- A file can be written into a directory. -/
def writeFailureAt (entries : List FileEntry) (p : Path) : Option WriteFailure :=
  if p.isAbsolute then some .missingDirectory
  else match walk entries [] p.components.dropLast with
    | .ok _ => none
    | .error obstacle => some obstacle

def ofEntries (entries : List FileEntry) : Files :=
  let entries := withParents entries
  { isDirectory := fun p => (folder? entries p).isSome
    below := fun p => match folder? entries p with
      | none => []
      | some root => listBelow entries root
    writeFailure? := writeFailureAt entries
    parser := .ofText }

end Files
end TypeAtlas
