/-! The wildcard forms of a type argument: `?`, `? extends B` and `? super B`. -/

namespace TypeAtlas

inductive Wildcard
  | unbounded
  | upper
  | lower
  deriving DecidableEq

namespace Wildcard

/-- The word that marks the form where a type is shown. -/
def keyword : Wildcard → String
  | .unbounded => "?"
  | .upper => "extends"
  | .lower => "super"

def ofKeyword? : String → Option Wildcard
  | "?" => some .unbounded
  | "extends" => some .upper
  | "super" => some .lower
  | _ => none

/-- The wildcard that a type argument's first character announces. -/
def ofMarker? : Char → Option Wildcard
  | '*' => some .unbounded
  | '+' => some .upper
  | '-' => some .lower
  | _ => none

end Wildcard
end TypeAtlas
