/-! Splitting command line arguments into options and operands. Long options take a value after `=` or
as the next argument; short ones can be run together and take a value at once or as the next
argument; `--` ends the options. -/

namespace TypeAtlas.CommandLine

structure OptionSpec where
  /-- What the option is called by, dashes included. -/
  names : List String
  takesValue : Bool
  deriving DecidableEq

/-- The name an option is known by, which is its last one. -/
def OptionSpec.name (o : OptionSpec) : String := o.names.getLastD ""

structure Arguments where
  options : List (String × String) := []
  operands : List String := []
  deriving DecidableEq

namespace Arguments

def has (a : Arguments) (name : String) : Bool := a.options.any (·.1 == name)

def values (a : Arguments) (name : String) : List String :=
  (a.options.filter (·.1 == name)).map (·.2)

def value? (a : Arguments) (name : String) : Option String := (a.values name).getLast?

def give (a : Arguments) (o : OptionSpec) (value : String) : Arguments :=
  { a with options := (o.name, value) :: a.options }

def operand (a : Arguments) (s : String) : Arguments := { a with operands := s :: a.operands }

end Arguments

def findOption (specs : List OptionSpec) (name : List Char) : Option OptionSpec :=
  specs.find? fun o => o.names.any (·.toList == name)

/-- The value that follows an option, and the arguments after it. -/
def takeValue (o : OptionSpec) (a : Arguments) (attached : Option (List Char)) (rest : List String) :
    Option (Arguments × List String) :=
  match attached, rest with
  | some value, rest => some (a.give o (String.ofList value), rest)
  | none, value :: rest => some (a.give o value, rest)
  | none, [] => none

/-- A long option, dashes included. -/
def longOption (specs : List OptionSpec) (a : Arguments) (arg : List Char) (rest : List String) :
    Option (Arguments × List String) :=
  let attached := match arg.dropWhile (· != '=') with
    | [] => none
    | _ :: value => some value
  match findOption specs (arg.takeWhile (· != '=')) with
  | none => none
  | some o =>
    if o.takesValue then takeValue o a attached rest
    else if attached.isSome then none
    else some (a.give o "", rest)

def shortOptions (specs : List OptionSpec) (a : Arguments) (rest : List String) :
    List Char → Option (Arguments × List String)
  | [] => some (a, rest)
  | c :: cs =>
    match findOption specs ['-', c] with
    | none => none
    | some o =>
      if o.takesValue then takeValue o a (if cs.isEmpty then none else some cs) rest
      else shortOptions specs (a.give o "") rest cs

def optionArgument (specs : List OptionSpec) (a : Arguments) (arg : List Char) (rest : List String) :
    Option (Arguments × List String) :=
  match arg with
  | '-' :: '-' :: _ => longOption specs a arg rest
  | _ :: letters => shortOptions specs a rest letters
  | [] => none

/-- Goes through the arguments; both lists of the result are last first. Without `interspersed` the
first operand ends the options. -/
def splitFrom (specs : List OptionSpec) (interspersed : Bool) (a : Arguments) :
    (limit : Nat) → List String → Option Arguments
  | _, [] => some a
  | 0, _ => none
  | limit + 1, arg :: rest =>
    if arg = "--" then some (rest.foldl Arguments.operand a)
    else if arg.toList.head? = some '-' ∧ arg ≠ "-" then
      match optionArgument specs a arg.toList rest with
      | none => none
      | some (a, rest) => splitFrom specs interspersed a limit rest
    else if interspersed then splitFrom specs interspersed (a.operand arg) limit rest
    else some ((arg :: rest).foldl Arguments.operand a)

/-- The options and operands among the arguments; `none` if an option is unknown, lacks its value or
has one it does not take. -/
def split (specs : List OptionSpec) (interspersed : Bool) (args : List String) : Option Arguments :=
  (splitFrom specs interspersed {} args.length args).map fun a =>
    ⟨a.options.reverse, a.operands.reverse⟩

end TypeAtlas.CommandLine
