/-! Array dimensions as they are written after a type: a pair of brackets for each. -/

namespace TypeAtlas.Text

def brackets : (dims : Nat) → List Char
  | 0 => []
  | dims + 1 => '[' :: ']' :: brackets dims

end TypeAtlas.Text
