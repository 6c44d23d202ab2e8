import TypeAtlas.Proofs.Extraction.Resolved
import TypeAtlas.Proofs.Scope.RawNames

/-! Names that do not resolve. Such a name is cut at its first type arguments, so it is the name of the first segment.
That is the raw type, the name the context was asked for without its arguments, only if there is no other segment: of
a member type of a type with arguments the outer type's name is kept, with the member type's own arguments. -/

namespace TypeAtlas

namespace Signature

/-- The names of a reference begin with what stands before its first type arguments. -/
theorem BodyTree.names_path (body : BodyTree) :
    ∃ inner, body.path.names = String.ofList (body.shown.takeWhile (· != '<')) :: inner := by
  cases body with
  | plain x =>
    refine ⟨[], ?_⟩
    rw [BodyTree.shown, takeWhile_kept fun _ => x.kept, BodyTree.path, ClassPath.names]
  | generic x as =>
    refine ⟨[], ?_⟩
    rw [BodyTree.shown, List.append_assoc, List.cons_append, x.takeWhile_text, BodyTree.path, ClassPath.names]
  | member x as inner =>
    refine ⟨inner.path.names, ?_⟩
    rw [BodyTree.shown, List.append_assoc, List.cons_append, x.takeWhile_text, BodyTree.path, ClassPath.names]

theorem TypeTree.names_sig (t : TypeTree) :
    ∃ inner, t.sig.names = String.ofList (t.element.shown.takeWhile (· != '<')) :: inner := by
  cases t with
  | primitive n p =>
    refine ⟨[], ?_⟩
    rw [TypeTree.element, TypeTree.shown, Text.brackets, List.append_nil, takeWhile_kept (Primitive.kept p),
      String.ofList_toList]
    rfl
  | typeVariable n x =>
    refine ⟨[], ?_⟩
    rw [TypeTree.element, TypeTree.shown, Text.brackets, List.append_nil, takeWhile_kept fun _ => x.kept]
    rfl
  | reference n origin body =>
    rw [TypeTree.element, TypeTree.shown, Text.brackets, List.append_nil]
    exact body.names_path

end Signature

namespace Resolution

open Extraction Signature

/-- What is left of an accepted signature before its first type arguments is the name of its first segment. -/
theorem names_eq_rawName {text : String} {sig : Signature} (parsed : Signature.parse text = .ok sig) :
    ∃ inner, sig.names = rawName sig.element.simpleName :: inner := by
  obtain ⟨d, -, -, rfl⟩ := Signature.parse_eq_ok.mp parsed
  cases d with
  | void => exact ⟨[], rfl⟩
  | type t =>
    rw [Derivation.signature, t.simpleName_element, rawName, String.toList_ofList]
    exact t.names_sig

variable {ctx : Context}

/-- The context has no name for what is written. -/
def Unresolved (ctx : Context) (written : String) : Prop := ctx written = .ok none ∨ ctx written = .ok (some "")

theorem Unresolved.fullName_eq {written : String} (h : Unresolved ctx written) :
    fullName ctx written = .ok (rawName written) := by
  rcases h with h | h <;> simp [fullName, h, bind, Except.bind]

/-- A type whose name does not resolve is named by its first segment, be it resolved or only named, and has the
arguments of its last one; it is resolved with any limit that its nesting admits. The name is the one that the context
was asked for, without type arguments, just in case there is one segment only. -/
theorem unresolved_name {text : String} {sig : Signature} (parsed : Signature.parse text = .ok sig)
    (unresolved : Unresolved ctx sig.element.simpleName) :
    ∃ name inner, sig.names = name :: inner ∧ qualifiedName ctx text = .ok name ∧
      (∀ limit s t s', Gives (resolve limit ctx text) s t s' →
        t.fullName = name ∧ t.arguments = sig.arguments.map (argumentType ctx)) ∧
      (Answers ctx → ∀ (limit : Int) s, sig.nest ≤ limit → ∃ t s', Gives (resolve limit ctx text) s t s') ∧
      (name = Text.erase sig.element.simpleName ↔ inner = []) := by
  obtain ⟨inner, names⟩ := names_eq_rawName parsed
  have named := unresolved.fullName_eq
  refine ⟨rawName sig.element.simpleName, inner, names, ?_, ?_, ?_, ?_⟩
  · rw [qualifiedName, signature, parsed]
    exact named
  · intro limit s t s' given
    rw [((requires_resolve limit ctx parsed).value given).2, signatureType_eq, nameIn_of_fullName named]
    exact ⟨rfl, rfl⟩
  · intro total limit s admitted
    exact ⟨_, (requires_resolve limit ctx parsed).gives total admitted s⟩
  · have joined := (erase_shown parsed).1
    rw [Signature.erase_element, joined, names]
    cases inner with
    | nil => exact iff_of_true String.intercalate_singleton.symm rfl
    | cons x inner =>
      refine iff_of_false (fun same => ?_) (List.cons_ne_nil x inner)
      -- the dot alone makes the joined names longer than the first of them
      have longer := congrArg String.length same
      rw [String.intercalate_cons_cons, String.length_append, String.length_append] at longer
      have dot : ".".length = 1 := rfl
      omega

def emptyContext : Context := fun _ => .ok none

/-- `Outer<A>.Inner<B>[]` becomes `Outer<B>[]`. -/
theorem unresolved_name_member :
    ∃ sig t s', Signature.parse "[QOuter<QA;>.Inner<QB;>;" = .ok sig ∧ Unresolved emptyContext sig.element.simpleName ∧
      qualifiedName emptyContext "[QOuter<QA;>.Inner<QB;>;" = .ok "Outer" ∧
      Gives (resolve 64 emptyContext "[QOuter<QA;>.Inner<QB;>;") {} t s' ∧
      t.fullName = "Outer" ∧ t.arguments.map (·.fullName) = ["B"] ∧
      Text.erase sig.element.simpleName = "Outer.Inner" := by
  have parsed : (Signature.parse "[QOuter<QA;>.Inner<QB;>;").toOption.map (fun sig =>
      (sig.nest, sig.names, Text.erase sig.element.simpleName,
        sig.arguments.map fun a => (argumentType emptyContext a).fullName)) =
          some (1, ["Outer", "Inner"], "Outer.Inner", ["B"]) := by
    cbv
  obtain ⟨sig, hs, hsig⟩ := exists_ok_of_toOption parsed
  obtain ⟨nest, names, erased, arguments⟩ :
      sig.nest = 1 ∧ sig.names = ["Outer", "Inner"] ∧ Text.erase sig.element.simpleName = "Outer.Inner" ∧
        sig.arguments.map (fun a => (argumentType emptyContext a).fullName) = ["B"] := by
    simpa using hsig
  have unresolved : Unresolved emptyContext sig.element.simpleName := .inl rfl
  obtain ⟨name, inner, first, qualified, value, total, -⟩ := unresolved_name hs unresolved
  rw [names] at first
  cases first
  obtain ⟨t, s', given⟩ := total (fun _ => ⟨_, rfl⟩) 64 {} (by omega)
  obtain ⟨named, same⟩ := value 64 {} t s' given
  refine ⟨sig, t, s', hs, unresolved, qualified, given, named, ?_, erased⟩
  rw [same, List.map_map]
  exact arguments

end Resolution
end TypeAtlas
