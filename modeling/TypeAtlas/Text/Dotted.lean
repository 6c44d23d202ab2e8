/-! Dotted names: the simple name is what follows the last dot, the head what precedes the first. -/

namespace TypeAtlas.Text

def afterLastDot (cs : List Char) : List Char :=
  (cs.reverse.takeWhile (· != '.')).reverse

def simpleName (s : String) : String := String.ofList (afterLastDot s.toList)

def headSegment (s : String) : String := String.ofList (s.toList.takeWhile (· != '.'))

def afterHead? (s : String) : Option String :=
  match s.toList.dropWhile (· != '.') with
  | [] => none
  | _ :: rest => some (String.ofList rest)

/-- A member of a package or type; the unnamed package adds no dot. -/
def qualify (owner name : String) : String :=
  if owner = "" then name else owner ++ "." ++ name

end TypeAtlas.Text
