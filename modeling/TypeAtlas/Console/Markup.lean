/-! Console markup. A tag is a bracket that starts with a lower case letter, `#`, `/` or `@` and is closed
before another one opens; a backslash before it makes it plain text. `escape` makes a text show as it
stands, and `plain` gives what a markup text shows. -/

namespace TypeAtlas.Markup

def startsTag (c : Char) : Bool := c.isLower || c = '#' || c = '/' || c = '@'

/-- Whether a closing bracket comes before the next opening one. -/
def closesTag : List Char → Bool
  | [] => false
  | c :: cs => if c = ']' then true else if c = '[' then false else closesTag cs

def isTag : List Char → Bool
  | [] => false
  | c :: cs => startsTag c && closesTag cs

/-- Escapes a text after `pending` backslashes. Backslashes before a tag are doubled, and one more
takes the tag's meaning away. -/
def escapeFrom (pending : Nat) : List Char → List Char
  | [] => List.replicate pending '\\'
  | c :: cs =>
    if c = '\\' then escapeFrom (pending + 1) cs
    else if c = '[' ∧ isTag cs then List.replicate (2 * pending + 1) '\\' ++ '[' :: escapeFrom 0 cs
    else List.replicate pending '\\' ++ c :: escapeFrom 0 cs

/-- A text that ends in a single backslash gets a second one, for a tag may follow it. -/
def closeBackslash (cs : List Char) : List Char :=
  match cs.reverse with
  | '\\' :: '\\' :: _ => cs
  | '\\' :: _ => cs ++ ['\\']
  | _ => cs

def escape (s : String) : String := String.ofList (closeBackslash (escapeFrom 0 s.toList))

/-- What a text shows after `pending` backslashes; `skipping` is on inside a tag. -/
def plainFrom (pending : Nat) (skipping : Bool) : List Char → List Char
  | [] => List.replicate pending '\\'
  | c :: cs =>
    if skipping then plainFrom 0 (c != ']') cs
    else if c = '\\' then plainFrom (pending + 1) false cs
    else if c = '[' ∧ isTag cs then
      if pending % 2 = 1 then List.replicate (pending / 2) '\\' ++ '[' :: plainFrom 0 false cs
      else List.replicate (pending / 2) '\\' ++ plainFrom 0 true cs
    else if c = '[' then List.replicate (pending - 1) '\\' ++ '[' :: plainFrom 0 false cs
    else List.replicate pending '\\' ++ c :: plainFrom 0 false cs

def plain (s : String) : String := String.ofList (plainFrom 0 false s.toList)

end TypeAtlas.Markup
