import TypeAtlas.Extraction.Resolution
import TypeAtlas.Proofs.Syntax.Validity
import TypeAtlas.Syntax.Reader

/-! The types that the declarations of a file use, as its tree shows them. The signature of a use can be
read just in case the use is sound, and a use without one is refused with the place where it stands. -/

namespace TypeAtlas

/-- The signatures in a method, with the dimension that variable arity adds. -/
def MethodDecl.signatures (m : MethodDecl) : List String :=
  m.returns :: (m.typeParameters.flatMap (·.bounds) ++ m.parameters.map Resolution.parameterSignature ++ m.throws)

/-- The signatures that a declaration has outside its body. -/
def Declaration.headSignatures (d : Declaration) : List String :=
  d.typeParameters.flatMap (·.bounds) ++ (d.superclass.toList ++ d.interfaces)

def Declaration.signatures (d : Declaration) : List String :=
  d.headSignatures ++ d.fields.map (·.signature) ++ d.methods.flatMap (·.signatures)

namespace Syntax

open Signature (parse IsName Plain)

/-- A place for a signature: a written type, if there is one, with further dimensions, or a type that goes
without saying, of an enum's constants, of constructors and of records' superclasses. -/
inductive TypeUse
  | written (type : Option Tree) (dims : Nat)
  | constant (name : String)
  | constructed
  | recordClass

namespace TypeUse

def signature (path : Option String) : TypeUse → Except Error String
  | .written type dims => (declaredType path type).map (dimensionMarks dims ++ ·)
  | .constant name => .ok ("Q" ++ name ++ ";")
  | .constructed => .ok "V"
  | .recordClass => .ok "Qjava.lang.Record;"

def Sound : TypeUse → Prop
  | .written none _ => False
  | .written (some t) dims => Syntax.Sound t dims
  | .constant name => IsName name
  | .constructed => True
  | .recordClass => True

def PlainNames : TypeUse → Prop
  | .written none _ => True
  | .written (some t) _ => t.PlainNames
  | .constant name => Plain name
  | .constructed => True
  | .recordClass => True

variable {path : Option String} {u : TypeUse} {w : String}

theorem signature_of_ok {t : Tree} {s : String} (dims : Nat) (h : t.signature = .ok s) :
    (written (some t) dims).signature path = .ok (dimensionMarks dims ++ s) := by
  rw [signature, declaredType, h]
  rfl

theorem signature_of_error {t : Tree} {problem : TypeProblem} (dims : Nat) (h : t.signature = .error problem) :
    (written (some t) dims).signature path = .error (.declaredType problem t.line path) := by
  rw [signature, declaredType, h]
  rfl

theorem signature_written {type : Option Tree} {dims : Nat} (h : (written type dims).signature path = .ok w) :
    ∃ t s, type = some t ∧ t.signature = .ok s ∧ w = dimensionMarks dims ++ s := by
  cases type with
  | none => cases h
  | some t =>
    cases hs : t.signature with
    | error problem =>
      rw [signature_of_error dims hs] at h
      cases h
    | ok s =>
      rw [signature_of_ok dims hs] at h
      cases h
      exact ⟨t, s, rfl, hs, rfl⟩

/-- Only written types fail, with the place where they stand if they do. -/
theorem signature_failed {e : Error} (h : u.signature path = .error e) :
    ∃ type dims, u = written type dims ∧ (type = none ∧ e = .missingType path ∨
      ∃ t problem, type = some t ∧ t.signature = .error problem ∧ e = .declaredType problem t.line path) := by
  cases u with
  | written type dims =>
    refine ⟨type, dims, rfl, ?_⟩
    cases type with
    | none =>
      cases h
      exact .inl ⟨rfl, rfl⟩
    | some t =>
      cases hs : t.signature with
      | error problem =>
        rw [signature_of_error dims hs] at h
        cases h
        exact .inr ⟨t, problem, rfl, hs, rfl⟩
      | ok s =>
        rw [signature_of_ok dims hs] at h
        cases h
  | constant name => cases h
  | constructed => cases h
  | recordClass => cases h

theorem parses_constant {x : String} (h : IsName x) : ∃ sig, parse ("Q" ++ x ++ ";") = .ok sig := by
  obtain ⟨x, hx⟩ := h
  refine ⟨_, Signature.parse_eq_ok.mpr ⟨.type (.reference 0 .written (.plain (.one x))), ?_, Nat.zero_le _, rfl⟩⟩
  simp [Signature.Derivation.text, Signature.TypeTree.text, Signature.BodyTree.text, Signature.DottedName.text, hx,
    Signature.Origin.marker]

theorem isName_of_parses {x : String} (plain : Plain x) {sig : Signature} (h : parse ("Q" ++ x ++ ";") = .ok sig) :
    IsName x := by
  obtain ⟨d, text, -, -⟩ := Signature.parse_eq_ok.mp h
  have chars : d.text ++ [] = 'Q' :: (x.toList ++ ';' :: []) := by simp [text]
  cases d with
  | void => exact absurd (List.cons.inj chars).1 (by decide)
  | type t =>
    obtain ⟨body, h⟩ := Signature.TypeTree.eq_of_reference chars
    exact (body.isName_of_plain plain rfl h).1

theorem parses_record : ∃ sig, parse "Qjava.lang.Record;" = .ok sig := by
  have dotted : Signature.isDottedName "java.lang.Record".toList = true := by decide
  obtain ⟨x, hx⟩ := Signature.isDottedName_iff.mp dotted
  refine ⟨_, Signature.parse_eq_ok.mpr ⟨.type (.reference 0 .written (.plain x)), ?_, Nat.zero_le _, rfl⟩⟩
  rw [Signature.Derivation.text, Signature.TypeTree.text, Signature.BodyTree.text, hx]
  rfl

theorem parses (h : u.signature path = .ok w) (sound : u.Sound) : ∃ sig, parse w = .ok sig := by
  cases u with
  | written type dims =>
    obtain ⟨t, s, rfl, hs, rfl⟩ := signature_written h
    exact parses_of_sound hs sound
  | constant name =>
    cases h
    exact parses_constant sound
  | constructed =>
    cases h
    exact ⟨.void, rfl⟩
  | recordClass =>
    cases h
    exact parses_record

theorem sound (h : u.signature path = .ok w) (plain : u.PlainNames) {sig : Signature} (parses : parse w = .ok sig) :
    u.Sound := by
  cases u with
  | written type dims =>
    obtain ⟨t, s, rfl, hs, rfl⟩ := signature_written h
    exact sound_of_parses hs plain parses
  | constant name =>
    cases h
    exact isName_of_parses plain parses
  | constructed => trivial
  | recordClass => trivial

end TypeUse

/-! ### The uses in a declaration -/

namespace Tree

def typeUses (ts : List Tree) : List TypeUse := ts.map fun t => .written (some t) 0

def boundUses (t : Tree) : List TypeUse := typeUses ((ofKind .typeBound t.parts).flatMap (·.parts))

/-- The bounds of all type parameters, also of those without a name. -/
def typeParameterUses (t : Tree) : List TypeUse :=
  match t.child? "type_parameters" with
  | none => []
  | some list => (ofKind .typeParameter list.namedChildren).flatMap boundUses

def clauseUses (clause : Tree) : List TypeUse :=
  match clause.kind with
  | .superclass => [.written clause.parts.getLast? 0]
  | .superInterfaces | .extendsInterfaces => typeUses clause.listedTypes
  | _ => []

def parameterUse (t : Tree) : TypeUse :=
  if t.kind = .spreadParameter then
    .written (t.parts.find? fun p => p.kind != .variableDeclarator && p.kind != .modifiers) 1
  else .written (t.child? "type") t.dimensions

def parameterUses (t : Tree) : List TypeUse :=
  match t.child? "parameters" with
  | none => []
  | some list =>
    (list.namedChildren.filter fun c => c.kind == .formalParameter || c.kind == .spreadParameter).map parameterUse

def throwsUses (t : Tree) : List TypeUse := typeUses ((ofKind .throws t.children).flatMap (·.parts))

def componentUses (t : Tree) : List TypeUse :=
  if t.kind = .recordDeclaration then .recordClass :: t.parameterUses else []

def headUses (t : Tree) : List TypeUse := t.typeParameterUses ++ t.children.flatMap clauseUses ++ t.componentUses

/-- The uses of a method or constructor other than what it returns. -/
def methodUses (t : Tree) : List TypeUse := t.typeParameterUses ++ t.parameterUses ++ t.throwsUses

/-- The uses of one member of the type with the simple name `owner`, types nested in it apart. The type of
a field is one even if no field is declared. -/
def memberUses (owner : String) (t : Tree) : List TypeUse :=
  match t.kind with
  | .enumConstant => [.constant owner]
  | .fieldDeclaration | .constantDeclaration =>
    .written (t.child? "type") 0 ::
      (ofKind .variableDeclarator t.namedChildren).map fun d => .written (t.child? "type") d.dimensions
  | .methodDeclaration | .annotationTypeElementDeclaration =>
    .written (t.child? "type") t.dimensions :: t.methodUses
  | .constructorDeclaration | .compactConstructorDeclaration => .constructed :: t.methodUses
  | _ => []

/-- Whether a node declares a type; one without a name does not. -/
def DeclaresType (t : Tree) : Prop := t.kind.typeKind?.isSome ∧ t.nameText ≠ ""

mutual

inductive Uses : Tree → TypeUse → Prop
  | head {t : Tree} {u : TypeUse} (mem : u ∈ t.headUses) : Uses t u
  | body {t b c : Tree} {u : TypeUse} (body : t.child? "body" = some b) (mem : c ∈ b.children)
      (h : MemberUses (Text.simpleName t.nameText) c u) : Uses t u

inductive MemberUses : String → Tree → TypeUse → Prop
  | member {owner : String} {t : Tree} {u : TypeUse} (named : t.isNamed) (mem : u ∈ t.memberUses owner) :
      MemberUses owner t u
  | constants {owner : String} {t c : Tree} {u : TypeUse} (named : t.isNamed) (kind : t.kind = .enumBodyDeclarations)
      (mem : c ∈ t.children) (h : MemberUses owner c u) : MemberUses owner t u
  | nested {owner : String} {t : Tree} {u : TypeUse} (named : t.isNamed) (declares : t.DeclaresType) (h : Uses t u) :
      MemberUses owner t u

end

end Tree

def TopUses (ts : List Tree) (u : TypeUse) : Prop := ∃ t ∈ ts, t.DeclaresType ∧ t.Uses u

def ParsedFile.Uses (f : ParsedFile) : TypeUse → Prop := TopUses f.root.namedChildren

end Syntax
end TypeAtlas
