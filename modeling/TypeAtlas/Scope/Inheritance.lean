import TypeAtlas.Scope.Lexical

/-! Member types inherited from supertypes. Supertypes are searched depth first, the superclass
before the interfaces, each type once, along at most `maxLinks` links; their own names are read
without inherited members. -/

namespace TypeAtlas

/-- The most supertype links between a type and the one that declares an inherited member. -/
def maxLinks : Nat := 64

namespace Declaration

/-- Signatures of the supertypes, superclass first. -/
def writtenSupertypes (d : Declaration) : List String :=
  (d.superclass.toList.filter (· ≠ "")) ++ d.interfaces

def supertype (d : Declaration) (ix : Index) (signature : String) : Except Error (Option String) := do
  let parsed ← (Signature.parse signature).mapError (.signature signature)
  let written := Text.erase parsed.simpleName
  match d.scope with
  | none => .ok (if ix.knows written then some written else none)
  | some s => s.resolveWith ix Inheritance.none written

def supertypes (d : Declaration) (ix : Index) : Except Error (List String) := do
  let found ← d.writtenSupertypes.mapM (d.supertype ix)
  .ok (found.filterMap id)

end Declaration

/-- A search that also gives the types it has been to. -/
abbrev Search := (visited : List String) → (owner : String) → Except Error (Option String × List String)

/-- The member of the first type that declares it or, by `search`, inherits it. -/
def searchTypes (ix : Index) (name : String) (search : Search) :
    (visited owners : List String) → Except Error (Option String × List String)
  | visited, [] => .ok (none, visited)
  | visited, owner :: owners =>
    if ix.knows (owner ++ "." ++ name) then .ok (some (owner ++ "." ++ name), visited)
    else do
      match ← search visited owner with
      | (some member, visited) => .ok (some member, visited)
      | (none, visited) => searchTypes ix name search visited owners

/-- The member that a type inherits when `levels` types may still be entered on the way down. -/
def searchSupertypes (ix : Index) (name : String) : (levels : Nat) → Search
  | 0, visited, _ => .ok (none, visited)
  | levels + 1, visited, owner =>
    match ix owner with
    | none => .ok (none, visited)
    | some d =>
      if owner ∈ visited then .ok (none, visited)
      else do
        let supertypes ← d.supertypes ix
        searchTypes ix name (searchSupertypes ix name levels) (owner :: visited) supertypes

def inheritedMember (ix : Index) : Inheritance := fun owner name => do
  let (member, _) ← searchSupertypes ix name (maxLinks + 1) [] owner
  .ok member

namespace Scope

/-- A name as written in this scope; member types from supertypes count if `inherited` says so. -/
def resolve (s : Scope) (ix : Index) (name : String) (inherited : Bool) :
    Except Error (Option String) :=
  s.resolveWith ix (if inherited then inheritedMember ix else Inheritance.none) name

end Scope
end TypeAtlas
