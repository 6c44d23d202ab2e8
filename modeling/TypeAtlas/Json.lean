import TypeAtlas.Text.Quoted

/-! JSON values with ordered fields, and their text: two spaces a level, one item a line, empty lists
and objects closed at once, and everything beyond printable ASCII escaped by UTF-16 unit. -/

namespace TypeAtlas

inductive Json
  | null
  | bool (b : Bool)
  | int (n : Int)
  | text (s : String)
  | array (items : List Json)
  | object (fields : List (String × Json))

namespace Json

def ofOption {α : Type} (f : α → Json) : Option α → Json
  | none => .null
  | some a => f a

def unit16 (n : Nat) : List Char := '\\' :: 'u' :: Text.hex 4 n

def escaped (c : Char) : List Char :=
  if c = '"' then ['\\', '"']
  else if c = '\\' then ['\\', '\\']
  else if c = '\n' then ['\\', 'n']
  else if c = '\r' then ['\\', 'r']
  else if c = '\t' then ['\\', 't']
  else if c = '\x08' then ['\\', 'b']
  else if c = '\x0c' then ['\\', 'f']
  else if 32 ≤ c.toNat ∧ c.toNat < 127 then [c]
  else if c.toNat < 0x10000 then unit16 c.toNat
  else unit16 (0xd800 + (c.toNat - 0x10000) / 0x400) ++ unit16 (0xdc00 + (c.toNat - 0x10000) % 0x400)

def literal (s : String) : String :=
  String.ofList ('"' :: s.toList.flatMap escaped ++ ['"'])

def line (level : Nat) : String := String.ofList ('\n' :: List.replicate (2 * level) ' ')

mutual

/-- The text of a value whose first line is already indented to `level`. -/
def pretty (level : Nat) : Json → String
  | .null => "null"
  | .bool b => if b then "true" else "false"
  | .int n => toString n
  | .text s => literal s
  | .array [] => "[]"
  | .array (v :: vs) =>
    "[" ++ line (level + 1) ++ pretty (level + 1) v ++ prettyItems (level + 1) vs ++ line level ++ "]"
  | .object [] => "\x7b\x7d"
  | .object (f :: fs) =>
    "\x7b" ++ line (level + 1) ++ prettyField (level + 1) f ++ prettyFields (level + 1) fs
      ++ line level ++ "\x7d"

def prettyItems (level : Nat) : List Json → String
  | [] => ""
  | v :: vs => "," ++ line level ++ pretty level v ++ prettyItems level vs

def prettyField (level : Nat) : String × Json → String
  | (key, v) => literal key ++ ": " ++ pretty level v

def prettyFields (level : Nat) : List (String × Json) → String
  | [] => ""
  | f :: fs => "," ++ line level ++ prettyField level f ++ prettyFields level fs

end

/-- The whole text of a document, without a final newline. -/
def document (v : Json) : String := pretty 0 v

end Json
end TypeAtlas
