import TypeAtlas.Text.Blank

/-! Tokens of Java source text. Blanks and comments separate tokens and are dropped; words are runs of
letters, digits, `_`, `$` and characters beyond ASCII; strings, text blocks and character literals
are one token each; everything else is a token of one character. -/

namespace TypeAtlas.Syntax

inductive TokenKind
  | word
  | literal
  | symbol (c : Char)
  deriving DecidableEq

structure Token where
  kind : TokenKind
  text : String
  /-- Where the token starts and ends, in characters from the start of the text. -/
  start : Nat
  stop : Nat
  /-- The line on which the token starts, from 1. -/
  line : Nat
  deriving DecidableEq

def slice (source : Array Char) (start stop : Nat) : String :=
  String.ofList (source.extract start stop).toList

def isWordChar (c : Char) : Bool :=
  c.isAlphanum || c = '_' || c = '$' || (128 ≤ c.toNat && !Text.isBlank c)

namespace Token

/-- What the scan is in the middle of, with the start of the token if it is one. -/
inductive Mode
  | between
  | word (start : Nat)
  | lineComment
  | blockComment
  | quoted (quote : Char) (start line : Nat)
  | textBlock (start line : Nat)

def endsWord : List Char → Bool
  | [] => true
  | c :: _ => !isWordChar c

def lineAfter (line : Nat) (c : Char) : Nat := if c = '\n' then line + 1 else line

/-- What the scan does at a place: it takes some characters, with which a token may end, and goes on from there. -/
structure Step where
  mode : Mode
  taken : Nat := 1
  line : Nat
  token : Option Token := none

/-- The step at the character `c`, with the text `cs` after it. -/
def step (source : Array Char) (mode : Mode) (pos line : Nat) (c : Char) (cs : List Char) : Step :=
  let emit (kind : TokenKind) (start stop line : Nat) : Token :=
    ⟨kind, slice source start stop, start, stop, line⟩
  let escape : Step := { mode := mode, taken := 2, line := cs.head?.elim line (lineAfter line) }
  match mode with
  | .lineComment => { mode := if c = '\n' then .between else .lineComment, line := lineAfter line c }
  | .blockComment =>
    if c = '*' ∧ cs.head? = some '/' then { mode := .between, taken := 2, line := line }
    else { mode := mode, line := lineAfter line c }
  | .quoted quote start first =>
    if c = '\\' then escape
    else if c = quote then { mode := .between, line := line, token := some (emit .literal start (pos + 1) first) }
    else { mode := mode, line := lineAfter line c }
  | .textBlock start first =>
    if c = '\\' then escape
    else if c = '"' ∧ cs.take 2 = ['"', '"'] then
      { mode := .between, taken := 3, line := line, token := some (emit .literal start (pos + 3) first) }
    else { mode := mode, line := lineAfter line c }
  | .word start =>
    if endsWord cs then { mode := .between, line := line, token := some (emit .word start (pos + 1) line) }
    else { mode := mode, line := line }
  | .between =>
    if Text.isBlank c then { mode := .between, line := lineAfter line c }
    else if isWordChar c then
      if endsWord cs then { mode := .between, line := line, token := some (emit .word pos (pos + 1) line) }
      else { mode := .word pos, line := line }
    else if c = '/' ∧ cs.head? = some '/' then { mode := .lineComment, taken := 2, line := line }
    else if c = '/' ∧ cs.head? = some '*' then { mode := .blockComment, taken := 2, line := line }
    else if c = '"' ∧ cs.take 2 = ['"', '"'] then { mode := .textBlock pos line, taken := 3, line := line }
    else if c = '"' ∨ c = '\'' then { mode := .quoted c pos line, line := line }
    else { mode := .between, line := line, token := some (emit (.symbol c) pos (pos + 1) line) }

/-- Scans the rest of a text from a place and line on; `acc` holds the tokens so far, the last first. -/
def scan (source : Array Char) (mode : Mode) (pos line : Nat) (acc : List Token) :
    List Char → List Token
  | [] => acc.reverse
  | c :: cs =>
    let s := step source mode pos line c cs
    scan source s.mode (pos + s.taken) s.line (s.token.toList ++ acc) (cs.drop (s.taken - 1))
termination_by cs => cs.length
decreasing_by simp only [List.length_drop, List.length_cons]; omega

/-- The tokens of a text; a byte order mark in front is no part of it. -/
def ofText (source : String) : List Token :=
  match source.toList with
  | '\ufeff' :: cs => scan source.toList.toArray .between 1 1 [] cs
  | cs => scan cs.toArray .between 0 1 [] cs

end Token
end TypeAtlas.Syntax
