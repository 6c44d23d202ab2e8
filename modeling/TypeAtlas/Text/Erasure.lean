/-! Erasure of written type names: type arguments, array brackets and spaces go, so that
`Map<K, V>.Entry[]` becomes `Map.Entry`. -/

namespace TypeAtlas.Text

/-- Erasure inside `depth` open argument lists. An unmatched `>` counts below zero, and nothing is
kept until it is matched again. -/
def eraseFrom : (depth : Int) → List Char → List Char
  | _, [] => []
  | depth, c :: cs =>
    if c = '<' then eraseFrom (depth + 1) cs
    else if c = '>' then eraseFrom (depth - 1) cs
    else if depth = 0 ∧ c ≠ '[' ∧ c ≠ ']' ∧ c ≠ ' ' then c :: eraseFrom depth cs
    else eraseFrom depth cs

def erase (s : String) : String := String.ofList (eraseFrom 0 s.toList)

end TypeAtlas.Text
