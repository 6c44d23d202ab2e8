import TypeAtlas.Signature.Parser

/-! What can go wrong while a model is extracted. Every cause is a constructor, and its wording is
`Error.message`. -/

namespace TypeAtlas

/-- Why a node of a syntax tree is no type; `text` is the node's source text. -/
inductive TypeProblem
  | unexpectedNode (kind text : String)
  | invalidArguments (text : String)
  | tooDeep (text : String)
  deriving DecidableEq

namespace TypeProblem

def text : TypeProblem → String
  | .unexpectedNode _ text => text
  | .invalidArguments text => text
  | .tooDeep text => text

def message : TypeProblem → String
  | .unexpectedNode kind text => "Unexpected " ++ kind ++ " node in type " ++ Text.quoted text
  | .invalidArguments text => "Invalid type arguments " ++ Text.quoted text
  | .tooDeep _ => "Type arguments nested too deep"

end TypeProblem

/-- A source file as diagnostics name it. -/
def shownPath (path : Option String) : String := path.getD "None"

inductive Error
  /-- The text is no signature. -/
  | signature (text : String) (fault : Signature.Fault)
  /-- Type arguments go deeper than the limit of the resolution. -/
  | nestedArguments (text : String) (limit : Int)
  /-- The superclasses of a type go on beyond the limit. -/
  | longLineage (name : String) (limit : Nat) (superclass : Option String)
  /-- A declared type cannot be encoded as a signature. -/
  | declaredType (problem : TypeProblem) (line : Nat) (path : Option String)
  | missingType (path : Option String)
  | duplicateType (name : String)
  | frozenModel (name : String)
  | noProject
  | missingProject (name : String)
  | undecodable (path : String)
  | unreadable (path : String)
  | unsupportedKind (kind name : String)
  deriving DecidableEq

namespace Error

def message : Error → String
  | .signature text fault =>
    "Malformed type signature " ++ Text.quoted text ++ ": " ++ fault.message
  | .nestedArguments text limit =>
    "Generic arguments of " ++ Text.quoted text ++ " are nested deeper than " ++ toString limit
  | .longLineage name limit _ =>
    "Supertype chain of " ++ name ++ " exceeds " ++ toString limit ++ " types"
  | .declaredType problem line path =>
    problem.message ++ " at line " ++ toString line ++ " of " ++ shownPath path
  | .missingType path => "Declaration without type in " ++ shownPath path
  | .duplicateType name => "Type " ++ name ++ " is already part of the model"
  | .frozenModel name => "Cannot add " ++ name ++ ", the model is frozen"
  | .noProject => "Project can't be None"
  | .missingProject name => "Project " ++ name ++ " does not exist"
  | .undecodable path => "Encoding error reading " ++ path ++ ": "
  | .unreadable path => "Error reading " ++ path ++ ": "
  | .unsupportedKind kind name => "Unsupported kind " ++ Text.quoted kind ++ " of " ++ name

def subject? : Error → Option String
  | .signature text _ => some text
  | .nestedArguments text _ => some text
  | .longLineage _ _ superclass => superclass
  | .declaredType problem _ _ => some problem.text
  | _ => none

end Error
end TypeAtlas
