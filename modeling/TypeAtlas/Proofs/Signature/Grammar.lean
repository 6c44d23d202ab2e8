import TypeAtlas.Signature.Parser

/-! The grammar of type signatures, by its derivations. A derivation is `V` or a type: dimensions, and
then a primitive, a type variable or a reference, whose names may have arguments. Each derivation has
a text, the tree that stands for it, and a nesting: how many argument lists lie around its innermost
type. -/

namespace TypeAtlas.Signature

/-- One or more letters, numerals, underscores or dollar signs. -/
structure Name where
  chars : List Char
  chars_ne_nil : chars ≠ []
  all_chars : chars.all isNameChar = true

def Name.single (c : Char) (h : isNameChar c = true) : Name :=
  ⟨[c], List.cons_ne_nil c [], by rw [List.all_cons, h, List.all_nil, Bool.true_and]⟩

inductive DottedName
  | one (x : Name)
  | more (x : Name) (rest : DottedName)

def DottedName.text : DottedName → List Char
  | .one x => x.chars
  | .more x rest => x.chars ++ '.' :: rest.text

mutual

inductive TypeTree
  | primitive (dims : Nat) (p : Primitive)
  | typeVariable (dims : Nat) (x : Name)
  | reference (dims : Nat) (origin : Origin) (body : BodyTree)

/-- What follows `Q` or `L`; after arguments a member type may come. -/
inductive BodyTree
  | plain (x : DottedName)
  | generic (x : DottedName) (arguments : ArgumentTrees)
  | member (x : DottedName) (arguments : ArgumentTrees) (inner : BodyTree)

inductive ArgumentTrees
  | one (a : ArgumentTree)
  | more (a : ArgumentTree) (rest : ArgumentTrees)

inductive ArgumentTree
  | unbounded
  | exactly (t : TypeTree)
  | upper (t : TypeTree)
  | lower (t : TypeTree)

end

mutual

def TypeTree.text : TypeTree → List Char
  | .primitive n p => List.replicate n '[' ++ [p.marker]
  | .typeVariable n x => List.replicate n '[' ++ 'T' :: x.chars ++ [';']
  | .reference n origin body => List.replicate n '[' ++ origin.marker :: body.text

def BodyTree.text : BodyTree → List Char
  | .plain x => x.text ++ [';']
  | .generic x as => x.text ++ '<' :: as.text ++ ['>', ';']
  | .member x as inner => x.text ++ '<' :: as.text ++ '>' :: '.' :: inner.text

def ArgumentTrees.text : ArgumentTrees → List Char
  | .one a => a.text
  | .more a as => a.text ++ as.text

def ArgumentTree.text : ArgumentTree → List Char
  | .unbounded => ['*']
  | .exactly t => t.text
  | .upper t => '+' :: t.text
  | .lower t => '-' :: t.text

end

namespace TypeTree

def dims : TypeTree → Nat
  | .primitive n _ => n
  | .typeVariable n _ => n
  | .reference n _ _ => n

def element : TypeTree → TypeTree
  | .primitive _ p => .primitive 0 p
  | .typeVariable _ x => .typeVariable 0 x
  | .reference _ origin body => .reference 0 origin body

end TypeTree

mutual

/-- The number of argument lists around the innermost type. -/
def TypeTree.nesting : TypeTree → Nat
  | .primitive _ _ => 0
  | .typeVariable _ _ => 0
  | .reference _ _ body => body.nesting

def BodyTree.nesting : BodyTree → Nat
  | .plain _ => 0
  | .generic _ as => as.nesting
  | .member _ as inner => max as.nesting inner.nesting

def ArgumentTrees.nesting : ArgumentTrees → Nat
  | .one a => a.nesting
  | .more a as => max a.nesting as.nesting

def ArgumentTree.nesting : ArgumentTree → Nat
  | .unbounded => 0
  | .exactly t => t.nesting + 1
  | .upper t => t.nesting + 1
  | .lower t => t.nesting + 1

end

mutual

def TypeTree.sig : TypeTree → TypeSig
  | .primitive n p => .primitive n p
  | .typeVariable n x => .typeVariable n (String.ofList x.chars)
  | .reference n origin body => .reference n origin body.path

def BodyTree.path : BodyTree → ClassPath
  | .plain x => .last (String.ofList x.text) []
  | .generic x as => .last (String.ofList x.text) as.list
  | .member x as inner => .outer (String.ofList x.text) as.list inner.path

def ArgumentTrees.list : ArgumentTrees → List Argument
  | .one a => [a.argument]
  | .more a as => a.argument :: as.list

def ArgumentTree.argument : ArgumentTree → Argument
  | .unbounded => .unbounded
  | .exactly t => .exactly t.sig
  | .upper t => .upper t.sig
  | .lower t => .lower t.sig

end

mutual

def TypeTree.shown : TypeTree → List Char
  | .primitive n p => p.name.toList ++ Text.brackets n
  | .typeVariable n x => x.chars ++ Text.brackets n
  | .reference n _ body => body.shown ++ Text.brackets n

def BodyTree.shown : BodyTree → List Char
  | .plain x => x.text
  | .generic x as => x.text ++ '<' :: as.shown ++ ['>']
  | .member x as inner => x.text ++ '<' :: as.shown ++ '>' :: '.' :: inner.shown

def ArgumentTrees.shown : ArgumentTrees → List Char
  | .one a => a.shown
  | .more a as => a.shown ++ ',' :: ' ' :: as.shown

def ArgumentTree.shown : ArgumentTree → List Char
  | .unbounded => ['?']
  | .exactly t => t.shown
  | .upper t => ['?', ' ', 'e', 'x', 't', 'e', 'n', 'd', 's', ' '] ++ t.shown
  | .lower t => ['?', ' ', 's', 'u', 'p', 'e', 'r', ' '] ++ t.shown

end

def ArgumentTrees.toList : ArgumentTrees → List ArgumentTree
  | .one a => [a]
  | .more a as => a :: as.toList

def BodyTree.lastArguments : BodyTree → List ArgumentTree
  | .plain _ => []
  | .generic _ as => as.toList
  | .member _ _ inner => inner.lastArguments

mutual

/-- The type and all that stand in its arguments. -/
def TypeTree.types : TypeTree → List TypeTree
  | .primitive n p => [.primitive n p]
  | .typeVariable n x => [.typeVariable n x]
  | .reference n origin body => .reference n origin body :: body.types

def BodyTree.types : BodyTree → List TypeTree
  | .plain _ => []
  | .generic _ as => as.types
  | .member _ as inner => as.types ++ inner.types

def ArgumentTrees.types : ArgumentTrees → List TypeTree
  | .one a => a.types
  | .more a as => a.types ++ as.types

def ArgumentTree.types : ArgumentTree → List TypeTree
  | .unbounded => []
  | .exactly t => t.types
  | .upper t => t.types
  | .lower t => t.types

end

inductive Derivation
  | void
  | type (t : TypeTree)

namespace Derivation

def text : Derivation → List Char
  | .void => ['V']
  | .type t => t.text

def nesting : Derivation → Nat
  | .void => 0
  | .type t => t.nesting

def signature : Derivation → Signature
  | .void => .void
  | .type t => .type t.sig

def shown : Derivation → List Char
  | .void => "void".toList
  | .type t => t.shown

def types : Derivation → List TypeTree
  | .void => []
  | .type t => t.types

def lastArguments : Derivation → List ArgumentTree
  | .type (.reference _ _ body) => body.lastArguments
  | _ => []

end Derivation
end TypeAtlas.Signature
