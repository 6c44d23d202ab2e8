import TypeAtlas.Signature.Basic
import TypeAtlas.Text.Quoted

/-! Reading signatures. `Signature.parse` accepts `V` and every type whose arguments are nested at
most `maxNesting` deep, and otherwise says what is wrong and, where that helps, at which character. -/

namespace TypeAtlas.Signature

/-- The deepest level of type arguments in which a type may stand. -/
def maxNesting : Nat := 256

inductive Reason
  | empty
  | tooDeep
  | noElement
  | misplacedVoid
  | typeVariableName
  | typeName
  | unexpected (c : Char)
  | unfinishedReference
  | afterArguments
  | unbalanced
  | noArguments
  | trailing
  | afterUnbounded
  deriving DecidableEq

/-- What is wrong with a signature, and the number of characters before the place. -/
structure Fault where
  reason : Reason
  position : Nat
  deriving DecidableEq

def Fault.message (f : Fault) : String :=
  match f.reason with
  | .empty => "empty signature"
  | .tooDeep => "nesting too deep"
  | .noElement => "missing element type"
  | .misplacedVoid => "void is only valid as a return type"
  | .typeVariableName => "invalid type variable"
  | .typeName => "invalid type name"
  | .unexpected c =>
    "unexpected character " ++ Text.quoted (String.singleton c) ++ " at " ++ toString f.position
  | .unfinishedReference => "missing ';'"
  | .afterArguments => "expected '.' or ';' after type arguments"
  | .unbalanced => "unbalanced '<'"
  | .noArguments => "empty type argument list"
  | .trailing => "trailing characters at " ++ toString f.position
  | .afterUnbounded => "trailing characters after '*'"

/-- Where reading stopped: the reason and the text that was left. -/
structure Stop where
  reason : Reason
  rest : List Char
  deriving DecidableEq

/-- Reads a value from the front of a text and gives the rest. -/
abbrev Reader (α : Type) := List Char → Except Stop (α × List Char)

/-- The arguments after `<`, up to and with `>`; every argument takes a character, so a limit beyond
the length of the text is none. -/
def parseArguments (type : Reader TypeSig) : (limit : Nat) → Reader (List Argument)
  | 0, s => .error ⟨.unbalanced, s⟩
  | _ + 1, [] => .error ⟨.unbalanced, []⟩
  | limit + 1, c :: s =>
    if c = '>' then .ok ([], s)
    else if c = '*' then do
      let (as, s) ← parseArguments type limit s
      .ok (.unbounded :: as, s)
    else if c = '+' then do
      let (t, s) ← type s
      let (as, s) ← parseArguments type limit s
      .ok (.upper t :: as, s)
    else if c = '-' then do
      let (t, s) ← type s
      let (as, s) ← parseArguments type limit s
      .ok (.lower t :: as, s)
    else do
      let (t, s) ← type (c :: s)
      let (as, s) ← parseArguments type limit s
      .ok (.exactly t :: as, s)

/-- The segments of a reference, up to and with `;`. Every segment takes a character, and so does every
argument in one, so a limit beyond the length of the text is none. -/
def parsePath (type : Reader TypeSig) : (limit : Nat) → Reader ClassPath
  | 0, s => .error ⟨.unfinishedReference, s⟩
  | limit + 1, s =>
    let name := s.takeWhile isNamePart
    match s.dropWhile isNamePart with
    | [] => .error ⟨.unfinishedReference, []⟩
    | c :: r =>
      if c = ';' then
        if isDottedName name then .ok (.last (String.ofList name) [], r)
        else .error ⟨.typeName, c :: r⟩
      else if c = '<' then
        if isDottedName name then do
          let (as, r) ← parseArguments type limit r
          if as.isEmpty then .error ⟨.noArguments, r⟩
          else match r with
            | ';' :: r => .ok (.last (String.ofList name) as, r)
            | '.' :: r => do
              let (inner, r) ← parsePath type limit r
              .ok (.outer (String.ofList name) as inner, r)
            | r => .error ⟨.afterArguments, r⟩
        else .error ⟨.typeName, c :: r⟩
      else .error ⟨.unexpected c, c :: r⟩

def parseTypeVariable : Reader String := fun s =>
  let name := s.takeWhile (· != ';')
  match s.dropWhile (· != ';') with
  | [] => .error ⟨.typeVariableName, s⟩
  | _ :: r =>
    if !name.isEmpty && name.all isNameChar then .ok (String.ofList name, r)
    else .error ⟨.typeVariableName, s⟩

/-- A type other than void that stands inside fewer than `levels` argument lists, counted from
inside: none is left at zero. -/
def parseType : (levels : Nat) → Reader TypeSig
  | 0, s => .error ⟨.tooDeep, s⟩
  | levels + 1, s =>
    let dims := (s.takeWhile (· = '[')).length
    match s.dropWhile (· = '[') with
    | [] => .error ⟨.noElement, []⟩
    | c :: r =>
      match Primitive.ofMarker? c with
      | some p => .ok (.primitive dims p, r)
      | none =>
        if c = 'V' then .error ⟨.misplacedVoid, c :: r⟩
        else if c = 'T' then do
          let (name, r) ← parseTypeVariable r
          .ok (.typeVariable dims name, r)
        else match Origin.ofMarker? c with
          | some origin => do
            let (path, r) ← parsePath (parseType levels) (r.length + 1) r
            .ok (.reference dims origin path, r)
          | none => .error ⟨.unexpected c, c :: r⟩

def parseChars : List Char → Except Stop Signature
  | [] => .error ⟨.empty, []⟩
  | 'V' :: r => if r.isEmpty then .ok .void else .error ⟨.trailing, r⟩
  | s => do
    let (t, r) ← parseType (maxNesting + 1) s
    if r.isEmpty then .ok (.type t) else .error ⟨.trailing, r⟩

def Stop.fault (s : List Char) (stop : Stop) : Fault := ⟨stop.reason, s.length - stop.rest.length⟩

def parse (s : String) : Except Fault Signature :=
  (parseChars s.toList).mapError (Stop.fault s.toList)

/-- The wildcard of a type argument's text and the text of its bound, which is not read. -/
def splitWildcard (s : String) : Except Fault (Option Wildcard × Option String) :=
  match s.toList with
  | [] => .error ⟨.empty, 0⟩
  | c :: r =>
    match Wildcard.ofMarker? c with
    | some .unbounded => if r.isEmpty then .ok (some .unbounded, none) else .error ⟨.afterUnbounded, 1⟩
    | some w => .ok (some w, some (String.ofList r))
    | none => .ok (none, some s)

end TypeAtlas.Signature
