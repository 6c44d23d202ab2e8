import TypeAtlas.CommandLine.Basic

/-! The program: it looks up what a command line needs to know of the file system, runs it, writes the
model and prints the report. -/

namespace TypeAtlas.Program

/-- The texts of an argument that may name a file: itself and what it has attached. -/
def candidates (arg : String) : List String :=
  [arg, String.ofList ((arg.toList.dropWhile (· != '=')).drop 1), String.ofList (arg.toList.drop 2)]

def isDirectory (path : String) : IO Bool := do
  let file := (← IO.currentDir) / path
  file.isDir

/-- Everything below a directory; only source files are read. -/
partial def listBelow (path : String) (components : List String) : IO (List FileEntry) := do
  let mut found : List FileEntry := []
  let directory := (← IO.currentDir) / path
  for e in ← directory.readDir do
    let components := components ++ [e.fileName]
    let path := path ++ "/" ++ e.fileName
    if ← isDirectory path then
      found := ⟨components, .directory⟩ :: (← listBelow path components) ++ found
    else if Sources.isSourceName e.fileName then
      found := ⟨components, .bytes (← IO.FS.readBinFile path)⟩ :: found
  return found

def probe (paths : List String) (roots : List String) : IO Files := do
  let parents := paths.map fun p =>
    ({ Path.ofString p with components := (Path.ofString p).components.dropLast } : Path)
  let asked := (paths.map Path.ofString ++ parents).eraseDups
  let directories ← asked.filterM fun p => isDirectory p.toString
  let listings ← roots.mapM fun r => return (Path.ofString r, ← listBelow r [])
  return {
    isDirectory := directories.contains
    below := fun p => (listings.lookup p).getD []
    writeFailure? := fun p =>
      if directories.contains { p with components := p.components.dropLast } then none
      else some .missingDirectory
    parser := .ofText }

def roots : CommandLine.Command → List String
  | .extract o => o.path :: o.libraries
  | .showTypes o => o.path :: o.libraries

def printTable (t : Console.Table) : IO Unit := do
  IO.println (Markup.plain t.title)
  IO.println (String.intercalate "\t" (t.columns.map (·.header)))
  let height := (t.columns.map (·.cells.length)).foldl max 0
  for row in List.range height do
    IO.println (String.intercalate "\t" (t.columns.map fun c => Markup.plain (c.cells.getD row "")))

def print (elapsed : Nat) : Console.Printed → IO Unit
  | .text markup => IO.println (Markup.plain markup)
  | .duration before after =>
    let hundredths := toString (elapsed / 10 % 100)
    let fraction := if hundredths.length = 1 then "0" ++ hundredths else hundredths
    IO.println (Markup.plain (before ++ toString (elapsed / 1000) ++ "." ++ fraction ++ after))
  | .table t => printTable t
  | .panel p => IO.println (Markup.plain p.content)

end TypeAtlas.Program

open TypeAtlas in
def main (args : List String) : IO UInt32 := do
  let workingDirectory := Path.ofString (toString (← IO.currentDir))
  let paths := args.flatMap Program.candidates
  let fs ← Program.probe paths []
  let fs ← match CommandLine.command fs args with
    | .ok c => Program.probe paths (Program.roots c)
    | .error _ => pure fs
  let start ← IO.monoMsNow
  let report := CommandLine.run fs workingDirectory args
  let exitCode ← pure report.exitCode.toUInt32
  let elapsed := (← IO.monoMsNow) - start
  if let some (path, text) := report.output then
    IO.FS.writeFile path.toString text
  for w in report.warnings do
    IO.eprintln ("WARNING: " ++ w.message)
  for item in report.printed do
    Program.print elapsed item
  return exitCode
