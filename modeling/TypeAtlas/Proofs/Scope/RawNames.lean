import Mathlib
import TypeAtlas.Proofs.Signature.Erasure
import TypeAtlas.Scope.Inheritance

/-! Raw names. A signature is read back from how it is shown by its segments: erasure leaves their names with dots
between them, whatever stands in type arguments at any depth, and no dimensions. A lexical scope reads nothing else of
a written type, so all signatures with the same segment names mean the same in it. -/

namespace TypeAtlas.Signature

open Text

/-- The names of the segments, the outermost type first. -/
def ClassPath.names : ClassPath → List String
  | .last x _ => [x]
  | .outer x _ inner => x :: inner.names

def TypeSig.names : TypeSig → List String
  | .primitive _ p => [p.name]
  | .typeVariable _ x => [x]
  | .reference _ _ path => path.names

def names : Signature → List String
  | .void => ["void"]
  | .type t => t.names

theorem ClassPath.names_ne_nil (path : ClassPath) : path.names ≠ [] := by
  cases path <;> exact List.cons_ne_nil _ _

theorem BodyTree.ofList_erased (body : BodyTree) : String.ofList body.erased = ".".intercalate body.path.names := by
  cases body with
  | plain x => exact String.intercalate_singleton.symm
  | generic x arguments => exact String.intercalate_singleton.symm
  | member x arguments inner =>
    rw [BodyTree.path, ClassPath.names, String.intercalate_cons_of_ne_nil inner.path.names_ne_nil, ← inner.ofList_erased,
      BodyTree.erased, ← String.toList_inj]
    simp

theorem BodyTree.isNamePart_of_mem_erased : (body : BodyTree) → ∀ c ∈ body.erased, isNamePart c = true
  | .plain _, _, h => DottedName.isNamePart_of_mem h
  | .generic _ _, _, h => DottedName.isNamePart_of_mem h
  | .member _ _ inner, c, h => by
    rcases List.mem_append.mp h with h | h
    · exact DottedName.isNamePart_of_mem h
    · rcases List.mem_cons.mp h with rfl | h
      · rfl
      · exact inner.isNamePart_of_mem_erased c h

theorem Primitive.isNamePart_of_mem (p : Primitive) : ∀ c ∈ p.name.toList, isNamePart c = true := by
  have all : p.name.toList.all isNamePart = true := by cases p <;> rfl
  exact List.all_eq_true.mp all

/-- What erasure leaves of a type: the names of its segments, and name characters and dots only. -/
theorem TypeTree.eraseFrom_shown (t : TypeTree) :
    String.ofList (eraseFrom 0 t.shown) = ".".intercalate t.sig.names ∧
      ∀ c ∈ eraseFrom 0 t.shown, isNamePart c = true := by
  cases t with
  | primitive n p =>
    rw [TypeTree.shown, eraseFrom_append_brackets, eraseFrom_eq_self (Primitive.kept p), String.ofList_toList]
    exact ⟨String.intercalate_singleton.symm, Primitive.isNamePart_of_mem p⟩
  | typeVariable n x =>
    rw [TypeTree.shown, eraseFrom_append_brackets, eraseFrom_eq_self fun _ => x.kept]
    exact ⟨String.intercalate_singleton.symm, fun _ h => isNamePart_of_isNameChar (x.isNameChar h)⟩
  | reference n origin body =>
    rw [TypeTree.shown, eraseFrom_append_brackets, body.eraseFrom_shown]
    exact ⟨body.ofList_erased, body.isNamePart_of_mem_erased⟩

theorem Derivation.eraseFrom_shown (d : Derivation) :
    String.ofList (eraseFrom 0 d.shown) = ".".intercalate d.signature.names ∧
      ∀ c ∈ eraseFrom 0 d.shown, isNamePart c = true := by
  cases d with
  | void =>
    have all : (eraseFrom 0 Derivation.void.shown).all isNamePart = true := rfl
    exact ⟨rfl, List.all_eq_true.mp all⟩
  | type t => exact t.eraseFrom_shown

/-- The erased name of an accepted signature. -/
theorem erase_shown {text : String} {sig : Signature} (parsed : parse text = .ok sig) :
    erase sig.simpleName = ".".intercalate sig.names ∧ ∀ c ∈ (erase sig.simpleName).toList, isNamePart c = true := by
  obtain ⟨d, hd, hm, rfl⟩ := parse_eq_ok.mp parsed
  rw [(Derivation.describes hd hm).simpleName, erase, String.toList_ofList, String.toList_ofList]
  exact d.eraseFrom_shown

/-- A lexical scope sees a written type by its erased name. -/
theorem resolve_eq_of_erase {a b : String} (h : erase a = erase b) (s : LexicalScope) (ix : Index) (inherits : Bool) :
    (Scope.lexical s).resolve ix a inherits = (Scope.lexical s).resolve ix b inherits := by
  simp only [Scope.resolve, Scope.resolveWith, LexicalScope.resolveWith, h]

/-- Erasure undoes rendering: it leaves the names of all segments with dots between them, which is nothing but name
characters and dots, and erasing these again changes nothing. So signatures with the same segment names are resolved
alike in every lexical scope. -/
theorem erase_simpleName {text : String} {sig : Signature} (parsed : parse text = .ok sig) :
    erase sig.simpleName = ".".intercalate sig.names ∧
      (∀ c ∈ (erase sig.simpleName).toList, isNamePart c = true) ∧
      erase (erase sig.simpleName) = erase sig.simpleName ∧
      ∀ text' sig', parse text' = .ok sig' → sig'.names = sig.names → ∀ (s : LexicalScope) ix inherits,
        (Scope.lexical s).resolve ix sig'.simpleName inherits = (Scope.lexical s).resolve ix sig.simpleName inherits := by
  obtain ⟨joined, parts⟩ := erase_shown parsed
  refine ⟨joined, parts, erase_erase _, fun text' sig' parsed' same => resolve_eq_of_erase ?_⟩
  rw [(erase_shown parsed').1, joined, same]

/-- A member type with arguments on both segments, as an array, and the same member type without them. -/
theorem erase_simpleName_entry :
    ∃ sig sig', parse "[[QMap<*+[TT;>.Entry<-QList<[I>;>;" = .ok sig ∧ parse "QMap<QA;>.Entry;" = .ok sig' ∧
      sig'.names = sig.names ∧ erase sig.simpleName = "Map.Entry" ∧
      ∀ (s : LexicalScope) ix inherits,
        (Scope.lexical s).resolve ix sig'.simpleName inherits = (Scope.lexical s).resolve ix sig.simpleName inherits := by
  have first : (parse "[[QMap<*+[TT;>.Entry<-QList<[I>;>;").toOption.map names = some ["Map", "Entry"] := by cbv
  have second : (parse "QMap<QA;>.Entry;").toOption.map names = some ["Map", "Entry"] := by cbv
  obtain ⟨sig, hs, names⟩ := exists_ok_of_toOption first
  obtain ⟨sig', hs', names'⟩ := exists_ok_of_toOption second
  have same : sig'.names = sig.names := names'.trans names.symm
  obtain ⟨joined, -, -, alike⟩ := erase_simpleName hs
  rw [names] at joined
  exact ⟨sig, sig', hs, hs', same, joined.trans (by decide), alike _ _ hs' same⟩

end TypeAtlas.Signature
