/-! Settings of an extraction: whether stubs are made for types declared elsewhere, how deep type
arguments and superclasses are followed, and which type all exceptions descend from. -/

namespace TypeAtlas

structure Settings where
  withExternals : Bool := true
  maxDepth : Nat := 64
  exceptionRoot : String := "java.lang.Throwable"
  maxDepth_pos : 0 < maxDepth := by decide

namespace Settings

/-- A depth limit that allows no step at all. -/
structure DepthError where
  depth : Int
  deriving DecidableEq

def DepthError.message (e : DepthError) : String :=
  "max_resolution_depth must be positive, got " ++ toString e.depth

def ofDepth (withExternals : Bool) (depth : Int) (exceptionRoot : String) :
    Except DepthError Settings :=
  if h : 0 < depth then
    .ok ⟨withExternals, depth.toNat, exceptionRoot, by omega⟩
  else .error ⟨depth⟩

end Settings
end TypeAtlas
