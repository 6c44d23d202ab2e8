import TypeAtlas.Text.Alphanumeric
import TypeAtlas.Text.Brackets
import TypeAtlas.Wildcard

/-! Type signatures: the encoded form in which declarations refer to types. `I` is a primitive and
`V` void, `[` adds an array dimension, `TT;` is a type variable, and `QOuter<+QA;*>.Inner;` a
reference whose segments may have type arguments (`Q` as written, `L` resolved). A signature is
kept as its tree; `Signature.encode` gives back its text. -/

namespace TypeAtlas

inductive Primitive
  | byte | char | double | float | int | long | short | boolean
  deriving DecidableEq

namespace Primitive

def all : List Primitive := [.byte, .char, .double, .float, .int, .long, .short, .boolean]

def marker : Primitive → Char
  | .byte => 'B'
  | .char => 'C'
  | .double => 'D'
  | .float => 'F'
  | .int => 'I'
  | .long => 'J'
  | .short => 'S'
  | .boolean => 'Z'

def name : Primitive → String
  | .byte => "byte"
  | .char => "char"
  | .double => "double"
  | .float => "float"
  | .int => "int"
  | .long => "long"
  | .short => "short"
  | .boolean => "boolean"

def ofMarker? : Char → Option Primitive
  | 'B' => some .byte
  | 'C' => some .char
  | 'D' => some .double
  | 'F' => some .float
  | 'I' => some .int
  | 'J' => some .long
  | 'S' => some .short
  | 'Z' => some .boolean
  | _ => none

end Primitive

/-- The names that stand for no declaration: the primitives and void. -/
def isPrimitiveName (s : String) : Bool :=
  s == "void" || Primitive.all.any (·.name == s)

namespace Signature

/-- Whether a reference stands as written in the source or fully resolved. -/
inductive Origin
  | written
  | resolved
  deriving DecidableEq

def Origin.marker : Origin → Char
  | .written => 'Q'
  | .resolved => 'L'

def Origin.ofMarker? : Char → Option Origin
  | 'Q' => some .written
  | 'L' => some .resolved
  | _ => none

mutual

/-- A type other than void, with its array dimensions. -/
inductive TypeSig
  | primitive (dims : Nat) (p : Primitive)
  | typeVariable (dims : Nat) (name : String)
  | reference (dims : Nat) (origin : Origin) (path : ClassPath)

/-- The dotted segments of a reference; all but the last have type arguments. -/
inductive ClassPath
  | last (name : String) (arguments : List Argument)
  | outer (name : String) (arguments : List Argument) (inner : ClassPath)

inductive Argument
  | unbounded
  | exactly (t : TypeSig)
  | upper (t : TypeSig)
  | lower (t : TypeSig)

end

/-- Characters of the names in a signature; dots separate names. -/
def isNameChar (c : Char) : Bool := Text.isAlphanumeric c || c = '_' || c = '$'

def isNamePart (c : Char) : Bool := isNameChar c || c = '.'

/-- Names separated by single dots, the first of them still open if `fresh`. -/
def isDottedFrom : (fresh : Bool) → List Char → Bool
  | fresh, [] => !fresh
  | fresh, c :: cs => if c = '.' then !fresh && isDottedFrom true cs
    else isNameChar c && isDottedFrom false cs

def isDottedName (cs : List Char) : Bool := isDottedFrom true cs

namespace TypeSig

def dims : TypeSig → Nat
  | .primitive n _ => n
  | .typeVariable n _ => n
  | .reference n _ _ => n

def element : TypeSig → TypeSig
  | .primitive _ p => .primitive 0 p
  | .typeVariable _ x => .typeVariable 0 x
  | .reference _ o path => .reference 0 o path

end TypeSig

def ClassPath.arguments : ClassPath → List Argument
  | .last _ as => as
  | .outer _ _ inner => inner.arguments

def TypeSig.arguments : TypeSig → List Argument
  | .reference _ _ path => path.arguments
  | _ => []

def Argument.wildcard : Argument → Option Wildcard
  | .unbounded => some .unbounded
  | .exactly _ => none
  | .upper _ => some .upper
  | .lower _ => some .lower

def Argument.bound : Argument → Option TypeSig
  | .unbounded => none
  | .exactly t => some t
  | .upper t => some t
  | .lower t => some t

mutual

def TypeSig.encode : TypeSig → List Char
  | .primitive n p => List.replicate n '[' ++ [p.marker]
  | .typeVariable n x => List.replicate n '[' ++ 'T' :: x.toList ++ [';']
  | .reference n o path => List.replicate n '[' ++ o.marker :: path.encode

def ClassPath.encode : ClassPath → List Char
  | .last x [] => x.toList ++ [';']
  | .last x (a :: as) => x.toList ++ '<' :: a.encode ++ encodeArguments as ++ ['>', ';']
  | .outer x as inner => x.toList ++ '<' :: encodeArguments as ++ '>' :: '.' :: inner.encode

def Argument.encode : Argument → List Char
  | .unbounded => ['*']
  | .exactly t => t.encode
  | .upper t => '+' :: t.encode
  | .lower t => '-' :: t.encode

def encodeArguments : List Argument → List Char
  | [] => []
  | a :: as => a.encode ++ encodeArguments as

end

def boundWords (w : Wildcard) : List Char := '?' :: ' ' :: w.keyword.toList ++ [' ']

mutual

/-- The type as it is written in source, qualification kept. -/
def TypeSig.render : TypeSig → List Char
  | .primitive n p => p.name.toList ++ Text.brackets n
  | .typeVariable n x => x.toList ++ Text.brackets n
  | .reference n _ path => path.render ++ Text.brackets n

def ClassPath.render : ClassPath → List Char
  | .last x as => x.toList ++ renderArguments as
  | .outer x as inner => x.toList ++ renderArguments as ++ '.' :: inner.render

def Argument.render : Argument → List Char
  | .unbounded => ['?']
  | .exactly t => t.render
  | .upper t => boundWords .upper ++ t.render
  | .lower t => boundWords .lower ++ t.render

/-- The arguments in angle brackets, or nothing if there are none. -/
def renderArguments : List Argument → List Char
  | [] => []
  | a :: as => '<' :: a.render ++ renderMore as ++ ['>']

def renderMore : List Argument → List Char
  | [] => []
  | a :: as => ',' :: ' ' :: a.render ++ renderMore as

end

end Signature

inductive Signature
  | void
  | type (t : Signature.TypeSig)

namespace Signature

def encode : Signature → List Char
  | .void => ['V']
  | .type t => t.encode

def text (s : Signature) : String := String.ofList s.encode

def isVoid : Signature → Bool
  | .void => true
  | .type _ => false

def dims : Signature → Nat
  | .void => 0
  | .type t => t.dims

def element : Signature → Signature
  | .void => .void
  | .type t => .type t.element

def arguments : Signature → List Argument
  | .void => []
  | .type t => t.arguments

def render : Signature → List Char
  | .void => "void".toList
  | .type t => t.render

/-- The readable name, such as `List<String>[]`. -/
def simpleName (s : Signature) : String := String.ofList s.render

end Signature
end TypeAtlas
