import TypeAtlas.Extraction.Session
import TypeAtlas.Model.Entry

/-! From signatures to data types. A signature is read in a context; names that do not resolve there
are kept as written, without their type arguments. Every name but the primitives is noted as a
reference. Type arguments may be nested as deep as `limit` says. -/

namespace TypeAtlas.Resolution

open Extraction

def signature (text : String) : Except Error Signature :=
  (Signature.parse text).mapError (.signature text)

/-- A written name without what follows its first `<`. -/
def rawName (name : String) : String := String.ofList (name.toList.takeWhile (· != '<'))

/-- The name of a type: what its written name resolves to, else the raw name. An empty answer counts
as none. -/
def fullName (ctx : Context) (written : String) : Except Error String := do
  match ← ctx written with
  | some name => .ok (if name = "" then rawName written else name)
  | none => .ok (rawName written)

/-- The name of the element type of a signature; no reference is noted. -/
def qualifiedName (ctx : Context) (text : String) : Except Error String := do
  fullName ctx (← signature text).element.simpleName

/-- Names the type at a depth of type arguments and notes the reference. -/
def enter (limit : Int) (ctx : Context) (depth : Nat) (s : Signature) : Extraction String := do
  if limit < depth then throw (.nestedArguments s.text limit)
  let name ← fullName ctx s.element.simpleName
  refer name
  return name

mutual

def resolveType (limit : Int) (ctx : Context) (depth : Nat) : Signature.TypeSig → Extraction DataType
  | .primitive dims p => do
    let name ← enter limit ctx depth (.type (.primitive dims p))
    return ⟨name, dims, [], none⟩
  | .typeVariable dims x => do
    let name ← enter limit ctx depth (.type (.typeVariable dims x))
    return ⟨name, dims, [], none⟩
  | .reference dims origin path => do
    let name ← enter limit ctx depth (.type (.reference dims origin path))
    let arguments ← resolvePath limit ctx depth path
    return ⟨name, dims, arguments, none⟩

/-- The type arguments of the innermost segment. -/
def resolvePath (limit : Int) (ctx : Context) (depth : Nat) :
    Signature.ClassPath → Extraction (List DataType)
  | .last _ arguments => resolveArguments limit ctx depth arguments
  | .outer _ _ inner => resolvePath limit ctx depth inner

def resolveArguments (limit : Int) (ctx : Context) (depth : Nat) :
    List Signature.Argument → Extraction (List DataType)
  | [] => return []
  | a :: as => do
    let t ← resolveArgument limit ctx depth a
    let ts ← resolveArguments limit ctx depth as
    return t :: ts

def resolveArgument (limit : Int) (ctx : Context) (depth : Nat) :
    Signature.Argument → Extraction DataType
  | .unbounded => return DataType.unboundedArgument
  | .exactly t => resolveType limit ctx (depth + 1) t
  | .upper t => do
    let t ← resolveType limit ctx (depth + 1) t
    return { t with wildcard := some .upper }
  | .lower t => do
    let t ← resolveType limit ctx (depth + 1) t
    return { t with wildcard := some .lower }

end

def resolve (limit : Int) (ctx : Context) (text : String) : Extraction DataType := do
  if limit < 0 then throw (.nestedArguments text limit)
  match ← signature text with
  | .void => do
    let name ← enter limit ctx 0 .void
    return ⟨name, 0, [], none⟩
  | .type t => resolveType limit ctx 0 t

/-- No type for constructors and void methods. -/
def returnType (limit : Int) (ctx : Context) (m : MethodDecl) : Extraction (Option DataType) := do
  if m.isConstructor then return none
  if (← signature m.returns).isVoid then return none
  return some (← resolve limit ctx m.returns)

def fieldAttribute (limit : Int) (ctx : Context) (f : FieldDecl) : Extraction Attribute := do
  let t ← resolve limit ctx f.signature
  return {
    identifier := f.name
    dataType := t
    isStatic := f.modifiers.contains "static"
    isFinal := f.modifiers.contains "final"
    access := .ofModifiers f.modifiers }

def parameterSignature (p : ParameterDecl) : String :=
  if p.isVariadic then "[" ++ p.signature else p.signature

def parameter (limit : Int) (ctx : Context) (p : ParameterDecl) : Extraction Parameter := do
  let t ← resolve limit ctx (parameterSignature p)
  return ⟨p.name, t⟩

def typeParameter (limit : Int) (ctx : Context) (p : TypeParameterDecl) :
    Extraction TypeParameter := do
  let bounds ← p.bounds.mapM (resolve limit ctx)
  return ⟨p.name, bounds⟩

end TypeAtlas.Resolution
