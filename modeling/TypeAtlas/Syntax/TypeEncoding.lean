import TypeAtlas.Error
import TypeAtlas.Syntax.Tree

/-! Encoding declared types as signatures. References stay as written, comments and annotations are
left out, and types may stand inside at most `Signature.maxNesting` lists of type arguments:
`Map<String, List<? extends T>>[]` becomes `[QMap<QString;QList<+QT;>;>;`. -/

namespace TypeAtlas.Syntax

def primitiveSignature? (word : String) : Option String :=
  if word = "void" then some "V"
  else (Primitive.all.find? (·.name == word)).map fun p => String.singleton p.marker

def dimensionMarks (n : Nat) : String := String.ofList (List.replicate n '[')

namespace Tree

def bracketCount (t : Tree) : Nat := t.children.countP (·.kind == .openBracket)

/-- The number of bracket pairs in the field for dimensions. -/
def dimensions (t : Tree) : Nat :=
  match t.child? "dimensions" with
  | none => 0
  | some d => d.bracketCount

def unexpected (t : Tree) : TypeProblem := .unexpectedNode t.kind.name t.text

def bounds (t : Tree) : List Tree := t.parts.filter (·.kind != .superKeyword)

theorem mem_parts_of_mem_bounds {t c : Tree} (h : c ∈ t.bounds) : c ∈ t.parts :=
  (List.mem_filter.mp h).1

mutual

def encodeType (t : Tree) (depth : Nat) : Except TypeProblem String :=
  if Signature.maxNesting < depth then .error (.tooDeep t.text)
  else match t.kind with
    | .integralType | .floatingPointType | .booleanType | .voidType =>
      match primitiveSignature? t.text with
      | some signature => .ok signature
      | none => .error t.unexpected
    | .typeIdentifier | .scopedTypeIdentifier | .genericType => do
      let path ← encodePath t depth
      .ok ("Q" ++ path ++ ";")
    | .arrayType =>
      match h : t.child? "element" with
      | some element => do
        have := sizeOf_lt_of_child? h
        let signature ← encodeType element depth
        .ok (dimensionMarks t.dimensions ++ signature)
      | none => .error t.unexpected
    | .annotatedType =>
      match h : t.parts.getLast? with
      | some type =>
        have := sizeOf_lt_of_mem_parts (List.mem_of_getLast? h)
        encodeType type depth
      | none => .error t.unexpected
    | _ => .error t.unexpected
termination_by (sizeOf t, 1)

/-- The dotted segments of a reference, with their type arguments. -/
def encodePath (t : Tree) (depth : Nat) : Except TypeProblem String :=
  if t.kind = .typeIdentifier then .ok t.text
  else match h : t.parts with
    | [first, second] =>
      have h₁ : sizeOf first < sizeOf t := sizeOf_lt_of_mem_parts (by simp [h])
      have h₂ : sizeOf second < sizeOf t := sizeOf_lt_of_mem_parts (by simp [h])
      if t.kind = .genericType then do
        let path ← encodePath first depth
        let arguments ← encodeArguments second depth
        .ok (path ++ arguments)
      else if t.kind = .scopedTypeIdentifier then do
        let path ← encodePath first depth
        .ok (path ++ "." ++ second.text)
      else .error t.unexpected
    | _ => .error t.unexpected
termination_by (sizeOf t, 0)

/-- A list of type arguments, which lie one level deeper. -/
def encodeArguments (t : Tree) (depth : Nat) : Except TypeProblem String := do
  let arguments ← t.parts.attach.mapM fun ⟨a, h⟩ =>
    have := sizeOf_lt_of_mem_parts h
    encodeArgument a (depth + 1)
  if t.kind != .typeArguments || arguments.isEmpty then .error (.invalidArguments t.text)
  else .ok ("<" ++ String.join arguments ++ ">")
termination_by (sizeOf t, 0)

def encodeArgument (t : Tree) (depth : Nat) : Except TypeProblem String :=
  if t.kind = .wildcard then
    match h : t.bounds.getLast? with
    | none => .ok "*"
    | some bound => do
      have := sizeOf_lt_of_mem_parts (mem_parts_of_mem_bounds (List.mem_of_getLast? h))
      let signature ← encodeType bound depth
      .ok ((if t.hasChild .superKeyword then "-" else "+") ++ signature)
  else encodeType t depth
termination_by (sizeOf t, 2)

end

def signature (t : Tree) : Except TypeProblem String := t.encodeType 0

end Tree
end TypeAtlas.Syntax
