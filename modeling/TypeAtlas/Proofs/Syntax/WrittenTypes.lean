import TypeAtlas.Proofs.Signature.Grammar
import TypeAtlas.Syntax.TypeEncoding

/-! Types as Java writes them, and the syntax trees that spell them. A reference is a name, possibly
a member of a reference before it, and may have type arguments; dimensions and annotations stand
where the grammar of types nests them. Comments, annotations and tokens may come between the parts of
any node. -/

namespace TypeAtlas.Syntax

open Signature (Name)

mutual

inductive WrittenType
  | primitive (p : Primitive)
  | reference (r : WrittenReference)
  | array (element : WrittenType) (dims : Nat)
  | annotated (t : WrittenType)

inductive WrittenReference
  | raw (h : WrittenHead)
  | generic (h : WrittenHead) (arguments : WrittenArguments)

/-- A name, of its own or after the reference whose member it names. -/
inductive WrittenHead
  | simple (x : Name)
  | member (outer : WrittenReference) (x : Name)

inductive WrittenArguments
  | one (a : WrittenArgument)
  | more (a : WrittenArgument) (rest : WrittenArguments)

inductive WrittenArgument
  | unbounded
  | exactly (t : WrittenType)
  | upper (t : WrittenType)
  | lower (t : WrittenType)

end

inductive DeclaredType
  | void
  | type (t : WrittenType)

/-! ### Syntax trees -/

def primitiveNode : Primitive → NodeKind
  | .byte | .char | .int | .long | .short => .integralType
  | .double | .float => .floatingPointType
  | .boolean => .booleanType

mutual

def WrittenType.SpelledBy : WrittenType → Tree → Prop
  | .primitive p, t => t.kind = primitiveNode p ∧ t.text = p.name
  | .reference r, t => r.SpelledBy t
  | .array e n, t => t.kind = .arrayType ∧ (∃ u, t.child? "element" = some u ∧ e.SpelledBy u) ∧
      ∃ d, t.child? "dimensions" = some d ∧ d.bracketCount = n
  | .annotated e, t => t.kind = .annotatedType ∧ ∃ u, t.parts = [u] ∧ e.SpelledBy u

def WrittenReference.SpelledBy : WrittenReference → Tree → Prop
  | .raw h, t => h.SpelledBy t
  | .generic h as, t => t.kind = .genericType ∧
      ∃ u v, t.parts = [u, v] ∧ h.SpelledBy u ∧ v.kind = .typeArguments ∧ as.SpelledBy v.parts

def WrittenHead.SpelledBy : WrittenHead → Tree → Prop
  | .simple x, t => t.kind = .typeIdentifier ∧ t.text.toList = x.chars
  | .member outer x, t => t.kind = .scopedTypeIdentifier ∧
      ∃ u v, t.parts = [u, v] ∧ outer.SpelledBy u ∧ v.kind = .typeIdentifier ∧ v.text.toList = x.chars

def WrittenArguments.SpelledBy : WrittenArguments → List Tree → Prop
  | .one a, ts => ∃ t, ts = [t] ∧ a.SpelledBy t
  | .more a as, ts => ∃ t us, ts = t :: us ∧ a.SpelledBy t ∧ as.SpelledBy us

def WrittenArgument.SpelledBy : WrittenArgument → Tree → Prop
  | .unbounded, t => t.kind = .wildcard ∧ t.bounds = []
  | .exactly e, t => e.SpelledBy t
  | .upper e, t => t.kind = .wildcard ∧ t.hasChild .superKeyword = false ∧ ∃ u, t.bounds = [u] ∧ e.SpelledBy u
  | .lower e, t => t.kind = .wildcard ∧ t.hasChild .superKeyword = true ∧ ∃ u, t.bounds = [u] ∧ e.SpelledBy u

end

/-- Void, which may be annotated like any type. -/
inductive VoidTree : Tree → Prop
  | plain {t : Tree} (kind : t.kind = .voidType) (text : t.text = "void") : VoidTree t
  | annotated {t u : Tree} (kind : t.kind = .annotatedType) (parts : t.parts = [u]) (void : VoidTree u) : VoidTree t

def DeclaredType.SpelledBy : DeclaredType → Tree → Prop
  | .void, t => VoidTree t
  | .type ty, t => ty.SpelledBy t

/-! ### What is written -/

/-- The dimensions, those of an element type included. -/
def WrittenType.dims : WrittenType → Nat
  | .primitive _ => 0
  | .reference _ => 0
  | .array e n => n + e.dims
  | .annotated e => e.dims

def WrittenArguments.toList : WrittenArguments → List WrittenArgument
  | .one a => [a]
  | .more a as => a :: as.toList

def WrittenReference.arguments : WrittenReference → List WrittenArgument
  | .raw _ => []
  | .generic _ as => as.toList

def WrittenType.arguments : WrittenType → List WrittenArgument
  | .primitive _ => []
  | .reference r => r.arguments
  | .array e _ => e.arguments
  | .annotated e => e.arguments

mutual

/-- The number of argument lists around the innermost type; an unbounded wildcard is none. -/
def WrittenType.nesting : WrittenType → Nat
  | .primitive _ => 0
  | .reference r => r.nesting
  | .array e _ => e.nesting
  | .annotated e => e.nesting

def WrittenReference.nesting : WrittenReference → Nat
  | .raw h => h.nesting
  | .generic h as => max h.nesting as.nesting

def WrittenHead.nesting : WrittenHead → Nat
  | .simple _ => 0
  | .member outer _ => outer.nesting

def WrittenArguments.nesting : WrittenArguments → Nat
  | .one a => a.nesting
  | .more a as => max a.nesting as.nesting

def WrittenArgument.nesting : WrittenArgument → Nat
  | .unbounded => 0
  | .exactly e => e.nesting + 1
  | .upper e => e.nesting + 1
  | .lower e => e.nesting + 1

end

mutual

def WrittenType.shown : WrittenType → List Char
  | .primitive p => p.name.toList
  | .reference r => r.shown
  | .array e n => e.shown ++ Text.brackets n
  | .annotated e => e.shown

def WrittenReference.shown : WrittenReference → List Char
  | .raw h => h.shown
  | .generic h as => h.shown ++ '<' :: as.shown ++ ['>']

def WrittenHead.shown : WrittenHead → List Char
  | .simple x => x.chars
  | .member outer x => outer.shown ++ '.' :: x.chars

def WrittenArguments.shown : WrittenArguments → List Char
  | .one a => a.shown
  | .more a as => a.shown ++ ',' :: ' ' :: as.shown

def WrittenArgument.shown : WrittenArgument → List Char
  | .unbounded => ['?']
  | .exactly e => e.shown
  | .upper e => ['?', ' ', 'e', 'x', 't', 'e', 'n', 'd', 's', ' '] ++ e.shown
  | .lower e => ['?', ' ', 's', 'u', 'p', 'e', 'r', ' '] ++ e.shown

end

mutual

def WrittenType.code : WrittenType → List Char
  | .primitive p => [p.marker]
  | .reference r => 'Q' :: r.code ++ [';']
  | .array e n => List.replicate n '[' ++ e.code
  | .annotated e => e.code

def WrittenReference.code : WrittenReference → List Char
  | .raw h => h.code
  | .generic h as => h.code ++ '<' :: as.code ++ ['>']

def WrittenHead.code : WrittenHead → List Char
  | .simple x => x.chars
  | .member outer x => outer.code ++ '.' :: x.chars

def WrittenArguments.code : WrittenArguments → List Char
  | .one a => a.code
  | .more a as => a.code ++ as.code

def WrittenArgument.code : WrittenArgument → List Char
  | .unbounded => ['*']
  | .exactly e => e.code
  | .upper e => '+' :: e.code
  | .lower e => '-' :: e.code

end

namespace DeclaredType

def dims : DeclaredType → Nat
  | .void => 0
  | .type t => t.dims

def arguments : DeclaredType → List WrittenArgument
  | .void => []
  | .type t => t.arguments

def nesting : DeclaredType → Nat
  | .void => 0
  | .type t => t.nesting

def shown : DeclaredType → List Char
  | .void => "void".toList
  | .type t => t.shown

def code : DeclaredType → List Char
  | .void => ['V']
  | .type t => t.code

end DeclaredType
end TypeAtlas.Syntax
