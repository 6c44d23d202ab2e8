import TypeAtlas.Provider

/-! The state of an extraction: the names referred to so far and the questions put to the provider.
It outlives a failure. -/

namespace TypeAtlas

structure Session where
  referenced : List String := []
  /-- The latest question first. -/
  queries : List Query := []
  deriving DecidableEq

abbrev Extraction := ExceptT Error (StateM Session)

namespace Session

/-- Notes a reference; primitives are none, and a name counts once. -/
def refer (name : String) (s : Session) : Session :=
  if isPrimitiveName name || s.referenced.contains name then s
  else { s with referenced := name :: s.referenced }

def ask (q : Query) (s : Session) : Session := { s with queries := q :: s.queries }

end Session

/-- The names of a collection, each once, by code points. -/
def sortedNames (names : List String) : List String :=
  names.eraseDups.mergeSort (· ≤ ·)

namespace Extraction

def refer (name : String) : Extraction Unit := modify (Session.refer name)

def ask (q : Query) : Extraction Unit := modify (Session.ask q)

def find (p : Provider) (name : String) : Extraction (Option Declaration) := do
  ask (.find name)
  return p.find? name

/-- The results up to the first failure, and that failure. -/
structure Progress (α : Type) where
  done : List α
  stopped : Option Error

/-- Takes one item after the other and stops at the first that fails. -/
def collect {α β : Type} (f : α → Extraction β) : List α → StateM Session (Progress β)
  | [] => return ⟨[], none⟩
  | a :: as => do
    match ← (f a).run with
    | .error e => return ⟨[], some e⟩
    | .ok b => do
      let rest ← collect f as
      return ⟨b :: rest.done, rest.stopped⟩

end Extraction
end TypeAtlas
