/-! One newline for all: a carriage return, alone or before a line feed, becomes a line feed. -/

namespace TypeAtlas.Text

def unifyNewlines : List Char → List Char
  | [] => []
  | '\r' :: '\n' :: cs => '\n' :: unifyNewlines cs
  | '\r' :: cs => '\n' :: unifyNewlines cs
  | c :: cs => c :: unifyNewlines cs

/-- The text of a file's bytes, if they are valid UTF-8. -/
def ofBytes? (bytes : ByteArray) : Option String :=
  (String.fromUTF8? bytes).map fun s => String.ofList (unifyNewlines s.toList)

end TypeAtlas.Text
