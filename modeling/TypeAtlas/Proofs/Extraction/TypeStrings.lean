import TypeAtlas.Proofs.Extraction.Resolved
import TypeAtlas.Proofs.Signature.Erasure

/-! The two written forms of a type. A signature is shown as its source would have it, and so is the data type that it
stands for. Where no name resolves, and type arguments stand behind last segments only, the two are the same text: each
name is cut off at its type arguments, and these are written again from the arguments of the data type. -/

namespace TypeAtlas

namespace Signature

mutual

/-- Only last segments have type arguments, at every level. -/
def TypeSig.argumentsLast : TypeSig → Bool
  | .primitive _ _ => true
  | .typeVariable _ _ => true
  | .reference _ _ path => path.argumentsLast

def ClassPath.argumentsLast : ClassPath → Bool
  | .last _ as => allArgumentsLast as
  | .outer _ as inner => as.isEmpty && inner.argumentsLast

def allArgumentsLast : List Argument → Bool
  | [] => true
  | a :: as => a.argumentsLast && allArgumentsLast as

def Argument.argumentsLast : Argument → Bool
  | .unbounded => true
  | .exactly t => t.argumentsLast
  | .upper t => t.argumentsLast
  | .lower t => t.argumentsLast

end

def argumentsLast : Signature → Bool
  | .void => true
  | .type t => t.argumentsLast

/-- Every segment but the last one of a derived reference has arguments. -/
theorem ArgumentTrees.list_isEmpty (as : ArgumentTrees) : as.list.isEmpty = false := by
  cases as <;> rfl

/-- A derived reference with arguments behind the last segment only has one segment. -/
theorem BodyTree.not_argumentsLast (x : DottedName) (as : ArgumentTrees) (inner : BodyTree) :
    (BodyTree.member x as inner).path.argumentsLast = false := by
  rw [BodyTree.path, ClassPath.argumentsLast, as.list_isEmpty, Bool.false_and]

/-- The dimensions of a type stand behind its element. -/
theorem TypeTree.shown_eq_dims (t : TypeTree) : t.shown = t.element.shown ++ Text.brackets t.dims := by
  cases t <;> simp [TypeTree.shown, TypeTree.element, TypeTree.dims, Text.brackets]

end Signature

namespace DataType

open Text

/-- The text of a type without a wildcard. -/
theorem typeString_plain (name : String) (dims : Nat) (arguments : List DataType) :
    typeString ⟨name, dims, arguments, none⟩ = name ++ argumentString arguments ++ String.ofList (Text.brackets dims) := by
  rw [typeString, if_neg (by simp), Int.toNat_natCast]
  rfl

/-- The text of a bound with its wildcard. -/
theorem typeString_withWildcard {t : DataType} (plain : t.wildcard = none) {w : Wildcard} (hw : w ≠ .unbounded) :
    typeString { t with wildcard := some w } = "? " ++ w.keyword ++ " " ++ t.typeString := by
  obtain ⟨name, dims, arguments, _⟩ := t
  cases plain
  rw [typeString, typeString, if_neg (by simpa using hw), if_neg (by simp)]
  rfl

end DataType

namespace Resolution

open Signature DataType

variable {ctx : Context}

theorem wildcard_typeOf (t : TypeSig) : (typeOf ctx t).wildcard = none := by
  cases t <;> rfl

/-- A name that does not resolve is cut off at its type arguments. -/
theorem nameIn_element (unresolved : ∀ written, ctx written = .ok none) (t : TypeTree) :
    nameIn ctx (Signature.type t.sig).element.simpleName =
      String.ofList (t.element.shown.takeWhile (· != '<')) := by
  rw [t.simpleName_element, nameIn, unresolved]
  dsimp only
  rw [rawName, String.toList_ofList]

/-- A type without arguments is shown as it is written. -/
theorem typeString_bare (unresolved : ∀ written, ctx written = .ok none) {t : TypeTree} {chars : List Char}
    (bare : t.sig.arguments = []) (shown : t.element.shown = chars ++ Text.brackets 0)
    (kept : ∀ c ∈ chars, c ≠ '<' ∧ c ≠ '>' ∧ c ≠ '[' ∧ c ≠ ']' ∧ c ≠ ' ') :
    (typeOf ctx t.sig).typeString = String.ofList t.shown := by
  have whole : t.element.shown.takeWhile (· != '<') = t.element.shown := by
    rw [shown, Text.brackets, List.append_nil, takeWhile_kept kept]
  have parts : typeOf ctx t.sig = ⟨String.ofList t.element.shown, t.dims, [], none⟩ := by
    rw [← whole, ← nameIn_element unresolved, ← t.dims_sig]
    refine (signatureType_eq ctx (.type t.sig)).trans ?_
    rw [Signature.arguments, bare, List.map_nil]
    rfl
  rw [parts, typeString_plain, argumentString, String.append_empty, ← String.ofList_append, ← t.shown_eq_dims]

mutual

theorem typeString_typeOf (unresolved : ∀ written, ctx written = .ok none) : (t : TypeTree) →
    t.sig.argumentsLast = true → (typeOf ctx t.sig).typeString = String.ofList t.shown
  | .primitive _ p, _ => typeString_bare unresolved rfl rfl (Primitive.kept p)
  | .typeVariable _ x, _ => typeString_bare unresolved rfl rfl fun _ => x.kept
  | .reference _ _ (.plain x), _ => typeString_bare unresolved rfl rfl fun _ => x.kept
  | .reference n origin (.generic x as), h => by
    have name := nameIn_element unresolved (.reference n origin (.generic x as))
    have cut : (x.text ++ '<' :: as.shown ++ ['>'] ++ Text.brackets 0).takeWhile (· != '<') = x.text := by
      rw [Text.brackets, List.append_nil, List.append_assoc, List.cons_append, x.takeWhile_text]
    rw [TypeTree.element, TypeTree.shown, BodyTree.shown, cut] at name
    rw [TypeTree.sig, typeOf, typeString_plain, ← TypeTree.sig, name, BodyTree.path, pathTypes,
      argumentString_list unresolved as h, ← String.ofList_append, ← String.ofList_append, TypeTree.shown, BodyTree.shown]
    simp only [List.append_assoc]
  | .reference n origin (.member x as inner), h => by
    rw [TypeTree.sig, TypeSig.argumentsLast, BodyTree.not_argumentsLast] at h
    cases h

theorem argumentString_list (unresolved : ∀ written, ctx written = .ok none) : (as : ArgumentTrees) →
    allArgumentsLast as.list = true →
    argumentString (argumentTypes ctx as.list) = String.ofList ('<' :: as.shown ++ ['>'])
  | .one a, h => by
    rw [ArgumentTrees.list, allArgumentsLast, Bool.and_eq_true] at h
    rw [ArgumentTrees.list, argumentTypes, argumentTypes, argumentString, typeString_argumentType unresolved a h.1,
      moreArguments, String.append_empty, ArgumentTrees.shown]
    simp [← String.toList_inj]
  | .more a as, h => by
    rw [ArgumentTrees.list, allArgumentsLast, Bool.and_eq_true] at h
    rw [ArgumentTrees.list, argumentTypes, argumentString, typeString_argumentType unresolved a h.1,
      moreArguments_list unresolved as h.2, ArgumentTrees.shown]
    simp [← String.toList_inj]

theorem moreArguments_list (unresolved : ∀ written, ctx written = .ok none) : (as : ArgumentTrees) →
    allArgumentsLast as.list = true →
    moreArguments (argumentTypes ctx as.list) = String.ofList (',' :: ' ' :: as.shown)
  | .one a, h => by
    rw [ArgumentTrees.list, allArgumentsLast, Bool.and_eq_true] at h
    rw [ArgumentTrees.list, argumentTypes, argumentTypes, moreArguments, typeString_argumentType unresolved a h.1,
      moreArguments, String.append_empty, ArgumentTrees.shown]
    simp [← String.toList_inj]
  | .more a as, h => by
    rw [ArgumentTrees.list, allArgumentsLast, Bool.and_eq_true] at h
    rw [ArgumentTrees.list, argumentTypes, moreArguments, typeString_argumentType unresolved a h.1,
      moreArguments_list unresolved as h.2, ArgumentTrees.shown]
    simp [← String.toList_inj]

theorem typeString_argumentType (unresolved : ∀ written, ctx written = .ok none) : (a : ArgumentTree) →
    a.argument.argumentsLast = true → (argumentType ctx a.argument).typeString = String.ofList a.shown
  | .unbounded, _ => by
    rw [ArgumentTree.argument, argumentType, unboundedArgument, typeString, if_pos rfl, ArgumentTree.shown]
  | .exactly t, h => typeString_typeOf unresolved t h
  | .upper t, h => by
    rw [ArgumentTree.argument, argumentType, typeString_withWildcard (wildcard_typeOf _) (by simp),
      typeString_typeOf unresolved t h, ArgumentTree.shown]
    simp [← String.toList_inj, Wildcard.keyword]
  | .lower t, h => by
    rw [ArgumentTree.argument, argumentType, typeString_withWildcard (wildcard_typeOf _) (by simp),
      typeString_typeOf unresolved t h, ArgumentTree.shown]
    simp [← String.toList_inj, Wildcard.keyword]

end

theorem typeString_signatureType (unresolved : ∀ written, ctx written = .ok none) {text : String} {sig : Signature}
    (parsed : Signature.parse text = .ok sig) (last : sig.argumentsLast = true) :
    (signatureType ctx sig).typeString = sig.simpleName := by
  obtain ⟨d, hd, hm, rfl⟩ := Signature.parse_eq_ok.mp parsed
  rw [(Derivation.describes hd hm).simpleName]
  cases d with
  | void =>
    have name : nameIn ctx Signature.void.element.simpleName = "void" := by
      rw [nameIn, unresolved]
      rfl
    rw [Derivation.signature, signatureType, name]
    rfl
  | type t => exact typeString_typeOf unresolved t last

/-- Type arguments of an outer segment are lost, and all names after them. -/
example : (Signature.parse "QMap<*>.Entry<TT;>;").toOption.map (fun sig =>
    ((signatureType (fun _ => .ok none) sig).typeString, sig.simpleName)) = some ("Map<T>", "Map<?>.Entry<T>") := by
  cbv

/-- In a context that resolves no name, a signature with type arguments behind last segments only is resolved with any
limit that its nesting admits, and what it resolves to is shown just as the signature is. -/
theorem typeString_eq_simpleName (unresolved : ∀ written, ctx written = .ok none) {text : String} {sig : Signature}
    (parsed : Signature.parse text = .ok sig) (last : sig.argumentsLast = true) (limit : Int) (s : Session) :
    (sig.nest ≤ limit → ∃ t s', Gives (resolve limit ctx text) s t s') ∧
      ∀ t s', Gives (resolve limit ctx text) s t s' → t.typeString = sig.simpleName := by
  have required := requires_resolve limit ctx parsed
  refine ⟨fun admitted => ⟨_, required.gives (fun written => ⟨_, unresolved written⟩) admitted s⟩, fun t s' given => ?_⟩
  rw [(required.value given).2]
  exact typeString_signatureType unresolved parsed last

/-- Arrays as wildcard bounds and as arguments, two levels deep. -/
theorem typeString_eq_simpleName_map :
    ∃ sig, Signature.parse "[Qa.Map<+[QList<*[[TT;>;-QSet<J>;>;" = .ok sig ∧ sig.argumentsLast = true ∧
      ∃ t s', Gives (resolve 2 (fun _ => .ok none) "[Qa.Map<+[QList<*[[TT;>;-QSet<J>;>;") {} t s' ∧
        t.typeString = "a.Map<? extends List<?, T[][]>[], ? super Set<long>>[]" := by
  have parsed : (Signature.parse "[Qa.Map<+[QList<*[[TT;>;-QSet<J>;>;").toOption.map
      (fun sig => (sig.nest, sig.argumentsLast, sig.simpleName)) =
        some (2, true, "a.Map<? extends List<?, T[][]>[], ? super Set<long>>[]") := by
    cbv
  obtain ⟨sig, hs, hsig⟩ := exists_ok_of_toOption parsed
  obtain ⟨nest, last, shown⟩ : sig.nest = 2 ∧ sig.argumentsLast = true ∧ _ := by simpa using hsig
  obtain ⟨admitted, same⟩ := typeString_eq_simpleName (fun _ => rfl) hs last 2 {}
  obtain ⟨t, s', given⟩ := admitted (by omega)
  exact ⟨sig, hs, last, t, s', given, (same t s' given).trans shown⟩

end Resolution
end TypeAtlas
