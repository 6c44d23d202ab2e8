import TypeAtlas.CommandLine.Arguments
import TypeAtlas.Console.Markup
import TypeAtlas.Console.ModelView
import TypeAtlas.Model.Serial
import TypeAtlas.Project.Basic
import TypeAtlas.Text.Integer

/-! The command line: `extract` reads a project, shows the numbers of its model and can write the model
to a file; `show` lists the types of a project or shows one of them. A run is a function of the
arguments and of the files around it; it gives what to print, what to write and the exit code. -/

namespace TypeAtlas.CommandLine

structure ExtractOptions where
  path : String
  libraries : List String
  exclude : List String
  includes : List String
  settings : Settings
  output : String

structure ShowOptions where
  path : String
  typeName : Option String
  libraries : List String
  withExternals : Bool

inductive Command
  | extract (o : ExtractOptions)
  | showTypes (o : ShowOptions)

/-- Why no command is run. -/
inductive Refusal
  | information
  | usage
  deriving DecidableEq

def flag (name : String) : OptionSpec := ⟨[name], false⟩

def valued (name : String) : OptionSpec := ⟨[name], true⟩

def globalSpecs : List OptionSpec := [flag "--version", flag "--help"]

def extractSpecs : List OptionSpec := [
  valued "--library", valued "--exclude", valued "--include", flag "--no-externals",
  valued "--max-depth", valued "--exception-root", ⟨["-o", "--output"], true⟩,
  ⟨["-v", "--verbose"], false⟩, flag "--help"]

def showSpecs : List OptionSpec :=
  [valued "--type", valued "--library", flag "--external", flag "--help"]

def isDirectory (fs : Files) (path : String) : Bool := path ≠ "" && fs.isDirectory (.ofString path)

/-- The directory that is the only operand of a command, and its libraries, which are directories too. -/
def directories (fs : Files) (a : Arguments) : Except Refusal (String × List String) :=
  match a.operands with
  | [path] =>
    let libraries := a.values "--library"
    if isDirectory fs path && libraries.all (isDirectory fs) then .ok (path, libraries)
    else .error .usage
  | _ => .error .usage

def settings (a : Arguments) : Except Refusal Settings :=
  let root := (a.value? "--exception-root").getD "java.lang.Throwable"
  let withExternals := !a.has "--no-externals"
  match a.value? "--max-depth" with
  | none => .ok { withExternals := withExternals, exceptionRoot := root }
  | some text =>
    match Text.integer? text with
    | none => .error .usage
    | some depth => (Settings.ofDepth withExternals depth root).mapError fun _ => .usage

def extractOptions (fs : Files) (a : Arguments) : Except Refusal ExtractOptions := do
  let (path, libraries) ← directories fs a
  let settings ← settings a
  let output := (a.value? "--output").getD ""
  if isDirectory fs output then .error .usage
  else .ok {
    path := path
    libraries := libraries
    exclude := a.values "--exclude"
    includes := a.values "--include"
    settings := settings
    output := output }

def showOptions (fs : Files) (a : Arguments) : Except Refusal ShowOptions := do
  let (path, libraries) ← directories fs a
  .ok ⟨path, a.value? "--type", libraries, a.has "--external"⟩

def commandArguments (specs : List OptionSpec) (args : List String) : Except Refusal Arguments :=
  match split specs true args with
  | none => .error .usage
  | some a => if a.has "--help" then .error .information else .ok a

/-- What operands without a command ask for: they are read once more, as if nothing stood before them. -/
def withoutCommand (operands : List String) : Refusal :=
  match split globalSpecs false operands with
  | some a => if a.has "--help" || a.has "--version" then .information else .usage
  | none => .usage

def command (fs : Files) (args : List String) : Except Refusal Command :=
  match split globalSpecs false args with
  | none => .error .usage
  | some a =>
    if a.has "--help" || a.has "--version" then .error .information
    else match a.operands with
      | "extract" :: args => do
        .ok (.extract (← extractOptions fs (← commandArguments extractSpecs args)))
      | "show" :: args => do
        .ok (.showTypes (← showOptions fs (← commandArguments showSpecs args)))
      | operands => .error (withoutCommand operands)

structure Report where
  printed : List Console.Printed := []
  warnings : List Warning := []
  output : Option (Path × String) := none
  writeFailure : Option WriteFailure := none
  exitCode : Nat := 0

open Console (Printed)

/-- Names of directories to leave out: the usual ones without those included again, and some more. -/
def exclusions (o : ExtractOptions) : List String :=
  Sources.defaultExclusions.filter (!o.includes.contains ·) ++ o.exclude

def extractIntro (workingDirectory : Path) (o : ExtractOptions) : List Printed :=
  (if (exclusions o).isEmpty then []
    else [.text ("[dim]Excluding:[/dim] " ++ Console.commaList (exclusions o))])
    ++ [.text ("[cyan]Extracting type model of:[/cyan] "
      ++ ((Path.ofString o.path).resolve workingDirectory).toString)]

def extractResults (m : Model) : List Printed := [
  .text ("\n" ++ Console.statusIcon true ++ " [bold green]Extraction complete![/bold green]"),
  .table (Console.summary m),
  .duration "[dim]⏱  Extraction: " "s[/dim]"]

def project (workingDirectory : Path) (path : String) (libraries exclusions : List String) : Project :=
  let root := Path.ofString path
  { root := root
    libraries := libraries.map Path.ofString
    exclusions := exclusions
    name := Project.nameFor workingDirectory root none }

/-- The model of a project that has not been read yet, and the warnings of reading it. -/
def extractModel (fs : Files) (p : Project) (settings : Settings) :
    Except Error Model × List Warning :=
  (p.extract fs settings {}).1

/-- The end of a run that found no model. -/
def failed (printed : List Printed) (warnings : List Warning) (message : String) : Report where
  printed := printed ++ [.text ("[red]Error:[/red] " ++ message)]
  warnings := warnings
  exitCode := 1

def runExtract (escape : String → String) (fs : Files) (workingDirectory : Path) (o : ExtractOptions) : Report :=
  let intro := extractIntro workingDirectory o
  match extractModel fs (project workingDirectory o.path o.libraries (exclusions o)) o.settings with
  | (.error e, warnings) => failed intro warnings (escape e.message)
  | (.ok m, warnings) =>
    let printed := intro ++ extractResults m
    if o.output = "" then { printed := printed, warnings := warnings }
    else
      let path := Path.ofString o.output
      match fs.writeFailure? path with
      | some failure => {
          printed := printed
          warnings := warnings
          writeFailure := some failure
          exitCode := 1 }
      | none => {
          printed := printed ++ [.text ("\n[green]Model written to:[/green] " ++ path.toString)]
          warnings := warnings
          output := some (path, m.toJson.document) }

def runShow (escape : String → String) (fs : Files) (workingDirectory : Path) (o : ShowOptions) : Report :=
  match extractModel fs (project workingDirectory o.path o.libraries Sources.defaultExclusions) {} with
  | (.error e, warnings) => failed [] warnings (escape e.message)
  | (.ok m, warnings) =>
    match o.typeName with
    | none => { printed := [.table (Console.typeTable escape m o.withExternals)], warnings := warnings }
    | some name =>
      match m.get? name with
      | none => failed [] warnings ("Type " ++ escape name ++ " not found in the model")
      | some e => { printed := Console.typeDetails escape e (m.isExternal name), warnings := warnings }

/-- Does what is asked for, with `escape` for the texts that are to be shown as they stand. -/
def carryOut (escape : String → String) (fs : Files) (workingDirectory : Path) : Except Refusal Command → Report
  | .error .information => {}
  | .error .usage => { exitCode := 2 }
  | .ok (.extract o) => runExtract escape fs workingDirectory o
  | .ok (.showTypes o) => runShow escape fs workingDirectory o

def run (fs : Files) (workingDirectory : Path) (args : List String) : Report :=
  carryOut Markup.escape fs workingDirectory (command fs args)

end TypeAtlas.CommandLine
