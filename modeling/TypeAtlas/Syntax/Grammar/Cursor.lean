import TypeAtlas.Syntax.Token
import TypeAtlas.Syntax.Tree

/-! A cursor over the tokens of a file, and the steps from which the grammar is made. A step takes
tokens from the front, or fails and takes none. -/

namespace TypeAtlas.Syntax

structure Cursor where
  source : Array Char
  tokens : List Token
  /-- The end of the last token taken. -/
  stop : Nat := 0

abbrev Parse := StateT Cursor Option

def reservedWords : List String :=
  ["abstract", "assert", "boolean", "break", "byte", "case", "catch", "char", "class", "const",
    "continue", "default", "do", "double", "else", "enum", "extends", "final", "finally", "float",
    "for", "goto", "if", "implements", "import", "instanceof", "int", "interface", "long", "native",
    "new", "package", "private", "protected", "public", "return", "short", "static", "strictfp",
    "super", "switch", "synchronized", "this", "throw", "throws", "transient", "try", "void",
    "volatile", "while", "true", "false", "null"]

namespace Token

def isWord (t : Token) (word : String) : Bool := t.kind = .word && t.text = word

def isSymbol (t : Token) (c : Char) : Bool := t.kind = .symbol c

def isIdentifier (t : Token) : Bool :=
  t.kind = .word && !(t.text.toList.head?.any Char.isDigit) && !reservedWords.contains t.text

def opens (t : Token) : Bool := t.isSymbol '(' || t.isSymbol '[' || t.isSymbol '\x7b'

def closes (t : Token) : Bool := t.isSymbol ')' || t.isSymbol ']' || t.isSymbol '\x7d'

end Token

namespace Parse

def attempt {α : Type} (p : Parse α) : Parse (Option α) := fun c =>
  match p.run c with
  | some (a, c) => some (some a, c)
  | none => some (none, c)

def ahead : Parse (List Token) := return (← get).tokens

/-- The number of characters that are left; no fewer than the tokens, for each has one of its own. -/
def left : Parse Nat := do
  let c ← get
  return c.source.size - c.stop

def look : Parse Token := do
  match ← ahead with
  | [] => failure
  | t :: _ => return t

def take : Parse Token := do
  let c ← get
  match c.tokens with
  | [] => failure
  | t :: ts =>
    set { c with tokens := ts, stop := t.stop }
    return t

def nextIs (p : Token → Bool) : Parse Bool := return (← ahead).head?.any p

def takeIf (p : Token → Bool) : Parse Bool := do
  if ← nextIs p then
    let _ ← take
    return true
  else return false

/-- Takes the next token, which has to be as asked. -/
def expect (p : Token → Bool) : Parse Token := do
  if ← nextIs p then take else failure

def symbol (c : Char) : Parse Token := expect (·.isSymbol c)

def word (w : String) : Parse Token := expect (·.isWord w)

def identifier : Parse Token := expect (·.isIdentifier)

/-- Results of a step for as long as it gives any, at most `limit` of them. -/
def many {α : Type} (p : Parse (Option α)) : (limit : Nat) → Parse (List α)
  | 0 => return []
  | limit + 1 => do
    match ← p with
    | none => return []
    | some a => return a :: (← many p limit)

def commaSeparated {α : Type} (p : Parse α) : Parse (List α) := do
  let first ← p
  let rest ← many (do if ← takeIf (·.isSymbol ',') then return some (← p) else return none) (← left)
  return first :: rest

/-- The tokens after a group of brackets, and where the group ends; `depth` brackets are open. -/
def afterGroup : (depth : Nat) → List Token → Option (List Token × Nat)
  | _, [] => none
  | depth, t :: ts =>
    if t.opens then afterGroup (depth + 1) ts
    else if t.closes then if depth ≤ 1 then some (ts, t.stop) else afterGroup (depth - 1) ts
    else if depth = 0 then none
    else afterGroup depth ts

/-- Takes a bracket with everything up to the one that closes it. -/
def group : Parse Unit := do
  let c ← get
  match afterGroup 0 c.tokens with
  | none => failure
  | some (ts, stop) => set { c with tokens := ts, stop := stop }

def leaf (kind : NodeKind) (field : Option String) (t : Token) : Tree :=
  ⟨kind, true, field, t.text, t.line, []⟩

/-- The node from a token up to the last one taken. -/
def node (kind : NodeKind) (field : Option String) (start : Token) (children : List Tree) :
    Parse Tree := do
  let c ← get
  return ⟨kind, true, field, slice c.source start.start c.stop, start.line, children⟩

/-- Takes an annotation, if one is next; it leaves no node. -/
def annotation? : Parse (Option Unit) := do
  match ← ahead with
  | a :: b :: _ =>
    if a.isSymbol '@' && b.isIdentifier then
      let _ ← take
      let _ ← identifier
      let _ ← many (do
        match ← ahead with
        | a :: b :: _ =>
          if a.isSymbol '.' && b.isIdentifier then
            let _ ← take
            let _ ← take
            return some ()
          else return none
        | _ => return none) (← left)
      if ← nextIs (·.isSymbol '(') then group
      return some ()
    else return none
  | _ => return none

/-- Takes all annotations that are next and tells whether there were any. -/
def annotations : Parse Bool := do
  return !(← many annotation? (← left)).isEmpty

end Parse
end TypeAtlas.Syntax
