/-! Paths of files by their components. Empty components and `.` are dropped; `..` is kept and goes one
directory up when the path is followed. -/

namespace TypeAtlas

structure Path where
  isAbsolute : Bool
  components : List String
  deriving DecidableEq

namespace Path

def pieces (cs : List Char) : List (List Char) :=
  match cs with
  | [] => [[]]
  | c :: cs =>
    match c, pieces cs with
    | '/', rest => [] :: rest
    | c, [] => [[c]]
    | c, first :: rest => (c :: first) :: rest

def ofString (s : String) : Path where
  isAbsolute := s.toList.head? = some '/'
  components := ((pieces s.toList).map String.ofList).filter fun c => c ≠ "" ∧ c ≠ "."

def toString (p : Path) : String :=
  let joined := String.intercalate "/" p.components
  if p.isAbsolute then "/" ++ joined else if joined = "" then "." else joined

def below (p : Path) (components : List String) : Path :=
  { p with components := p.components ++ components }

/-- Goes to the components of a path from a place given by its own. -/
def follow (place : List String) : List String → List String
  | [] => place
  | c :: cs => follow (if c = ".." then place.dropLast else place ++ [c]) cs

def resolve (p : Path) (workingDirectory : Path) : Path :=
  ⟨true, follow (if p.isAbsolute then [] else workingDirectory.components) p.components⟩

/-- The order of paths: by the first components that differ, and a directory before what is below it. -/
def inOrder : (a b : List String) → Bool
  | [], _ => true
  | _ :: _, [] => false
  | a :: as, b :: bs => if a = b then inOrder as bs else a ≤ b

/-- The last component, empty for the root. -/
def name (p : Path) : String := p.components.getLastD ""

end Path
end TypeAtlas
