import TypeAtlas.Proofs.Signature.Reading

/-! What a signature's derivation says about it. A text has at most one derivation, the derived type is
written back as this text, and dimensions, element, arguments and readable form of the type are those
of the derivation. -/

namespace TypeAtlas.Signature

mutual

theorem TypeTree.encode_sig : (t : TypeTree) → t.sig.encode = t.text
  | .primitive _ _ => rfl
  | .typeVariable n x => by rw [TypeTree.sig, TypeSig.encode, String.toList_ofList, TypeTree.text]
  | .reference n o body => by rw [TypeTree.sig, TypeSig.encode, body.encode_path, TypeTree.text]

theorem BodyTree.encode_path : (body : BodyTree) → body.path.encode = body.text
  | .plain x => by rw [BodyTree.path, ClassPath.encode, String.toList_ofList, BodyTree.text]
  | .generic x (.one a) => by
    rw [BodyTree.path, ArgumentTrees.list, ClassPath.encode, String.toList_ofList, a.encode_argument,
      encodeArguments, List.append_nil, BodyTree.text, ArgumentTrees.text]
  | .generic x (.more a as) => by
    rw [BodyTree.path, ArgumentTrees.list, ClassPath.encode, String.toList_ofList, a.encode_argument,
      as.encode_list, BodyTree.text, ArgumentTrees.text]
    simp
  | .member x as inner => by
    rw [BodyTree.path, ClassPath.encode, String.toList_ofList, as.encode_list, inner.encode_path, BodyTree.text]

theorem ArgumentTrees.encode_list : (as : ArgumentTrees) → encodeArguments as.list = as.text
  | .one a => by
    rw [ArgumentTrees.list, encodeArguments, a.encode_argument, encodeArguments, List.append_nil,
      ArgumentTrees.text]
  | .more a as => by
    rw [ArgumentTrees.list, encodeArguments, a.encode_argument, as.encode_list, ArgumentTrees.text]

theorem ArgumentTree.encode_argument : (a : ArgumentTree) → a.argument.encode = a.text
  | .unbounded => rfl
  | .exactly t => by rw [ArgumentTree.argument, Argument.encode, t.encode_sig, ArgumentTree.text]
  | .upper t => by rw [ArgumentTree.argument, Argument.encode, t.encode_sig, ArgumentTree.text]
  | .lower t => by rw [ArgumentTree.argument, Argument.encode, t.encode_sig, ArgumentTree.text]

end

mutual

theorem TypeTree.render_sig : (t : TypeTree) → t.sig.render = t.shown
  | .primitive _ _ => rfl
  | .typeVariable n x => by rw [TypeTree.sig, TypeSig.render, String.toList_ofList, TypeTree.shown]
  | .reference n o body => by rw [TypeTree.sig, TypeSig.render, body.render_path, TypeTree.shown]

theorem BodyTree.render_path : (body : BodyTree) → body.path.render = body.shown
  | .plain x => by
    rw [BodyTree.path, ClassPath.render, String.toList_ofList, renderArguments, List.append_nil, BodyTree.shown]
  | .generic x as => by
    rw [BodyTree.path, ClassPath.render, String.toList_ofList, as.render_list, BodyTree.shown]
    simp
  | .member x as inner => by
    rw [BodyTree.path, ClassPath.render, String.toList_ofList, as.render_list, inner.render_path, BodyTree.shown]
    simp

theorem ArgumentTrees.render_list : (as : ArgumentTrees) → renderArguments as.list = '<' :: as.shown ++ ['>']
  | .one a => by
    rw [ArgumentTrees.list, renderArguments, a.render_argument, renderMore, List.append_nil,
      ArgumentTrees.shown]
  | .more a as => by
    rw [ArgumentTrees.list, renderArguments, a.render_argument, as.renderMore_list, ArgumentTrees.shown]
    simp

theorem ArgumentTrees.renderMore_list : (as : ArgumentTrees) → renderMore as.list = ',' :: ' ' :: as.shown
  | .one a => by
    rw [ArgumentTrees.list, renderMore, a.render_argument, renderMore, List.append_nil, ArgumentTrees.shown]
  | .more a as => by
    rw [ArgumentTrees.list, renderMore, a.render_argument, as.renderMore_list, ArgumentTrees.shown]
    simp

theorem ArgumentTree.render_argument : (a : ArgumentTree) → a.argument.render = a.shown
  | .unbounded => rfl
  | .exactly t => by rw [ArgumentTree.argument, Argument.render, t.render_sig, ArgumentTree.shown]
  | .upper t => by rw [ArgumentTree.argument, Argument.render, t.render_sig, ArgumentTree.shown]; rfl
  | .lower t => by rw [ArgumentTree.argument, Argument.render, t.render_sig, ArgumentTree.shown]; rfl

end

/-! ### Uniqueness -/

mutual

theorem TypeTree.sig_injective : (t t' : TypeTree) → t.sig = t'.sig → t = t'
  | .primitive _ _, t', h => by
    cases t' <;> cases h
    rfl
  | .typeVariable n x, t', h => by
    cases t' with
    | typeVariable n' y =>
      rw [TypeTree.sig, TypeTree.sig, TypeSig.typeVariable.injEq] at h
      rw [h.1, Name.ext (String.ofList_injective h.2)]
    | primitive _ _ => cases h
    | reference _ _ _ => cases h
  | .reference n o body, t', h => by
    cases t' with
    | reference n' o' body' =>
      rw [TypeTree.sig, TypeTree.sig, TypeSig.reference.injEq] at h
      rw [h.1, h.2.1, body.path_injective body' h.2.2]
    | primitive _ _ => cases h
    | typeVariable _ _ => cases h

theorem BodyTree.path_injective : (body body' : BodyTree) → body.path = body'.path → body = body'
  | .plain x, body', h => by
    cases body' with
    | plain y =>
      rw [BodyTree.path, BodyTree.path, ClassPath.last.injEq] at h
      rw [DottedName.text_injective (String.ofList_injective h.1)]
    | generic y as =>
      rw [BodyTree.path, BodyTree.path, ClassPath.last.injEq] at h
      exact absurd h.2.symm as.list_ne_nil
    | member _ _ _ => cases h
  | .generic x as, body', h => by
    cases body' with
    | plain y =>
      rw [BodyTree.path, BodyTree.path, ClassPath.last.injEq] at h
      exact absurd h.2 as.list_ne_nil
    | generic y as' =>
      rw [BodyTree.path, BodyTree.path, ClassPath.last.injEq] at h
      rw [DottedName.text_injective (String.ofList_injective h.1), as.list_injective as' h.2]
    | member _ _ _ => cases h
  | .member x as inner, body', h => by
    cases body' with
    | member y as' inner' =>
      rw [BodyTree.path, BodyTree.path, ClassPath.outer.injEq] at h
      rw [DottedName.text_injective (String.ofList_injective h.1), as.list_injective as' h.2.1,
        inner.path_injective inner' h.2.2]
    | plain _ => cases h
    | generic _ _ => cases h

theorem ArgumentTrees.list_injective : (as as' : ArgumentTrees) → as.list = as'.list → as = as'
  | .one a, as', h => by
    cases as' with
    | one b =>
      rw [ArgumentTrees.list, ArgumentTrees.list, List.cons.injEq] at h
      rw [a.argument_injective b h.1]
    | more b bs =>
      rw [ArgumentTrees.list, ArgumentTrees.list, List.cons.injEq] at h
      exact absurd h.2.symm bs.list_ne_nil
  | .more a as, as', h => by
    cases as' with
    | one b =>
      rw [ArgumentTrees.list, ArgumentTrees.list, List.cons.injEq] at h
      exact absurd h.2 as.list_ne_nil
    | more b bs =>
      rw [ArgumentTrees.list, ArgumentTrees.list, List.cons.injEq] at h
      rw [a.argument_injective b h.1, as.list_injective bs h.2]

theorem ArgumentTree.argument_injective : (a a' : ArgumentTree) → a.argument = a'.argument → a = a'
  | .unbounded, a', h => by
    cases a' <;> cases h
    rfl
  | .exactly t, a', h => by
    cases a' with
    | exactly t' => rw [t.sig_injective t' (Argument.exactly.inj h)]
    | unbounded => cases h
    | upper _ => cases h
    | lower _ => cases h
  | .upper t, a', h => by
    cases a' with
    | upper t' => rw [t.sig_injective t' (Argument.upper.inj h)]
    | unbounded => cases h
    | exactly _ => cases h
    | lower _ => cases h
  | .lower t, a', h => by
    cases a' with
    | lower t' => rw [t.sig_injective t' (Argument.lower.inj h)]
    | unbounded => cases h
    | exactly _ => cases h
    | upper _ => cases h

end

/-- A reader that allows for the nesting of both types tells them apart by their texts. -/
theorem TypeTree.text_injective {t t' : TypeTree} (h : t.text = t'.text) : t = t' := by
  apply t.sig_injective
  -- both texts are read with levels enough for either
  have ht := parseType_text t (max t.nesting t'.nesting + 1) (by omega) []
  have ht' := parseType_text t' (max t.nesting t'.nesting + 1) (by omega) []
  rw [h, ht'] at ht
  exact (Prod.mk.inj (Except.ok.inj ht)).1.symm

theorem Derivation.text_injective {d d' : Derivation} (h : d.text = d'.text) : d = d' := by
  have void (t : TypeTree) : ['V'] ≠ t.text := by
    obtain ⟨c, cs, hc, -, -, -, -, hv⟩ := t.text_eq_cons
    rw [hc]
    intro h
    exact hv (List.cons.inj h).1.symm
  cases d with
  | void =>
    cases d' with
    | void => rfl
    | type t => exact absurd h (void t)
  | type t =>
    cases d' with
    | void => exact absurd h.symm (void t)
    | type t' => rw [TypeTree.text_injective h]

/-! ### The parts of an accepted text -/

theorem TypeTree.text_eq_dims (t : TypeTree) : t.text = List.replicate t.dims '[' ++ t.element.text := by
  cases t <;> simp [TypeTree.text, TypeTree.dims, TypeTree.element]

theorem TypeTree.element_eq_cons (t : TypeTree) : ∃ c cs, t.element.text = c :: cs ∧ c ≠ '[' := by
  cases t with
  | primitive n p => exact ⟨_, [], rfl, by cases p <;> decide⟩
  | typeVariable n x => exact ⟨'T', _, rfl, by decide⟩
  | reference n o body => exact ⟨_, body.text, rfl, by cases o <;> decide⟩

theorem TypeTree.takeWhile_text (t : TypeTree) : (t.text.takeWhile (· = '[')).length = t.dims := by
  obtain ⟨c, cs, hc, hne⟩ := t.element_eq_cons
  rw [t.text_eq_dims, hc, takeWhile_dims _ hne, List.length_replicate]

theorem TypeTree.dropWhile_text (t : TypeTree) : t.text.dropWhile (· = '[') = t.element.text := by
  obtain ⟨c, cs, hc, hne⟩ := t.element_eq_cons
  rw [t.text_eq_dims, hc, dropWhile_dims _ hne]

theorem TypeTree.dims_sig (t : TypeTree) : t.sig.dims = t.dims := by
  cases t <;> rfl

theorem TypeTree.element_sig (t : TypeTree) : t.sig.element = t.element.sig := by
  cases t <;> rfl

/-- The readable name of the type below all dimensions. -/
theorem TypeTree.simpleName_element (t : TypeTree) :
    (Signature.type t.sig).element.simpleName = String.ofList t.element.shown := by
  rw [simpleName, Signature.element, render, t.element_sig, t.element.render_sig]

theorem TypeTree.nesting_element (t : TypeTree) : t.element.nesting = t.nesting := by
  cases t <;> rfl

theorem ArgumentTrees.list_eq_map : (as : ArgumentTrees) → as.list = as.toList.map ArgumentTree.argument
  | .one _ => rfl
  | .more a as => congrArg (a.argument :: ·) as.list_eq_map

theorem BodyTree.arguments_path : (body : BodyTree) →
    body.path.arguments = body.lastArguments.map ArgumentTree.argument
  | .plain _ => rfl
  | .generic _ as => as.list_eq_map
  | .member _ _ inner => inner.arguments_path

theorem Derivation.arguments_signature (d : Derivation) :
    d.signature.arguments = d.lastArguments.map ArgumentTree.argument := by
  cases d with
  | void => rfl
  | type t =>
    cases t with
    | primitive _ _ => rfl
    | typeVariable _ _ => rfl
    | reference _ _ body => exact body.arguments_path

mutual

theorem TypeTree.nesting_le_of_mem : (t : TypeTree) → ∀ u ∈ t.types, u.nesting ≤ t.nesting
  | .primitive n p, u, hu => List.mem_singleton.mp hu ▸ Nat.le_refl _
  | .typeVariable n x, u, hu => List.mem_singleton.mp hu ▸ Nat.le_refl _
  | .reference n o body, u, hu => by
    rcases List.mem_cons.mp hu with rfl | hu
    · exact Nat.le_refl _
    · exact body.nesting_le_of_mem u hu

theorem BodyTree.nesting_le_of_mem : (body : BodyTree) → ∀ u ∈ body.types, u.nesting ≤ body.nesting
  | .plain x, u, hu => absurd hu List.not_mem_nil
  | .generic x as, u, hu => as.nesting_le_of_mem u hu
  | .member x as inner, u, hu => by
    rw [BodyTree.nesting]
    rcases List.mem_append.mp hu with hu | hu
    · have := as.nesting_le_of_mem u hu
      omega
    · have := inner.nesting_le_of_mem u hu
      omega

theorem ArgumentTrees.nesting_le_of_mem : (as : ArgumentTrees) → ∀ u ∈ as.types, u.nesting ≤ as.nesting
  | .one a, u, hu => a.nesting_le_of_mem u hu
  | .more a as, u, hu => by
    rw [ArgumentTrees.nesting]
    rcases List.mem_append.mp hu with hu | hu
    · have := a.nesting_le_of_mem u hu
      omega
    · have := as.nesting_le_of_mem u hu
      omega

theorem ArgumentTree.nesting_le_of_mem : (a : ArgumentTree) → ∀ u ∈ a.types, u.nesting ≤ a.nesting
  | .unbounded, u, hu => absurd hu List.not_mem_nil
  | .exactly t, u, hu => Nat.le_succ_of_le (t.nesting_le_of_mem u hu)
  | .upper t, u, hu => Nat.le_succ_of_le (t.nesting_le_of_mem u hu)
  | .lower t, u, hu => Nat.le_succ_of_le (t.nesting_le_of_mem u hu)

end

theorem TypeTree.parse_text {t : TypeTree} (h : t.nesting ≤ maxNesting) :
    parse (String.ofList t.text) = .ok (.type t.sig) :=
  parse_eq_ok.mpr ⟨.type t, String.toList_ofList.symm, h, rfl⟩

theorem splitWildcard_text (a : ArgumentTree) :
    splitWildcard (String.ofList a.text) =
      .ok (a.argument.wildcard, a.argument.bound.map fun t => String.ofList t.encode) := by
  unfold splitWildcard
  rw [String.toList_ofList]
  cases a with
  | unbounded => rfl
  | exactly t =>
    obtain ⟨c, cs, hc, -, hu, hp, hm, -⟩ := t.text_eq_cons
    have hw : Wildcard.ofMarker? c = none := by
      unfold Wildcard.ofMarker?
      split <;> simp_all
    simp [ArgumentTree.text, ArgumentTree.argument, Argument.wildcard, Argument.bound, t.encode_sig, hc, hw]
  | upper t => simp [ArgumentTree.text, ArgumentTree.argument, Argument.wildcard, Argument.bound, t.encode_sig,
      Wildcard.ofMarker?]
  | lower t => simp [ArgumentTree.text, ArgumentTree.argument, Argument.wildcard, Argument.bound, t.encode_sig,
      Wildcard.ofMarker?]

/-- What the parts of an accepted text are by its derivation. -/
structure Derivation.Describes (d : Derivation) (s : String) (sig : Signature) : Prop where
  isVoid : sig.isVoid = true ↔ s = "V"
  dims : sig.dims = (s.toList.takeWhile (· = '[')).length
  element : sig.element.encode = s.toList.dropWhile (· = '[')
  parse_element : parse sig.element.text = .ok sig.element
  arguments : sig.arguments.map Argument.encode = d.lastArguments.map ArgumentTree.text
  splitWildcard : ∀ a ∈ d.lastArguments, Signature.splitWildcard (String.ofList a.text) =
    .ok (a.argument.wildcard, a.argument.bound.map fun t => String.ofList t.encode)
  parse_types : ∀ t ∈ d.types, parse (String.ofList t.text) = .ok (.type t.sig)
  simpleName : sig.simpleName = String.ofList d.shown

theorem Derivation.describes {d : Derivation} {s : String} (h : d.text = s.toList) (hd : d.nesting ≤ maxNesting) :
    d.Describes s d.signature where
  isVoid := by
    cases d with
    | void => exact ⟨fun _ => String.toList_injective h.symm, fun _ => rfl⟩
    | type t =>
      refine ⟨fun hv => absurd hv Bool.false_ne_true, fun hs => ?_⟩
      rw [hs] at h
      have same : Derivation.type t = .void := Derivation.text_injective h
      cases same
  dims := by
    rw [← h]
    cases d with
    | void => rfl
    | type t => exact t.dims_sig.trans t.takeWhile_text.symm
  element := by
    rw [← h]
    cases d with
    | void => rfl
    | type t =>
      rw [Derivation.text, t.dropWhile_text, ← t.element.encode_sig, ← t.element_sig]
      rfl
  parse_element := by
    cases d with
    | void => exact parse_eq_ok.mpr ⟨.void, by simp [Derivation.text, Derivation.signature, Signature.element,
        Signature.text, Signature.encode], Nat.zero_le _, rfl⟩
    | type t =>
      have he : (Derivation.type t).signature.element = .type t.element.sig := congrArg _ t.element_sig
      rw [he, Signature.text, Signature.encode, t.element.encode_sig]
      exact TypeTree.parse_text (t.nesting_element ▸ hd)
  arguments := by
    rw [d.arguments_signature, List.map_map]
    exact List.map_congr_left fun a _ => a.encode_argument
  splitWildcard := fun a _ => splitWildcard_text a
  parse_types := by
    intro t ht
    cases d with
    | void => exact absurd ht List.not_mem_nil
    | type u => exact TypeTree.parse_text (Nat.le_trans (u.nesting_le_of_mem t ht) hd)
  simpleName := by
    cases d with
    | void => rfl
    | type t => exact congrArg String.ofList t.render_sig

/-- A text is accepted just in case it has a derivation with no type inside more than `maxNesting`
argument lists. There is only one, and all that can be asked of the signature is read off it. -/
theorem parse_accepts_grammar (s : String) :
    ((∃ sig, parse s = .ok sig) ↔ ∃ d : Derivation, d.text = s.toList ∧ d.nesting ≤ maxNesting) ∧
      (∀ d d' : Derivation, d.text = s.toList → d'.text = s.toList → d = d') ∧
      ∀ d : Derivation, d.text = s.toList → d.nesting ≤ maxNesting →
        ∃ sig, parse s = .ok sig ∧ d.Describes s sig := by
  refine ⟨⟨?_, ?_⟩, ?_, ?_⟩
  · rintro ⟨sig, hs⟩
    obtain ⟨d, h, hd, -⟩ := parse_eq_ok.mp hs
    exact ⟨d, h, hd⟩
  · rintro ⟨d, h, hd⟩
    exact ⟨d.signature, parse_eq_ok.mpr ⟨d, h, hd, rfl⟩⟩
  · intro d d' h h'
    exact Derivation.text_injective (h.trans h'.symm)
  · intro d h hd
    exact ⟨d.signature, parse_eq_ok.mpr ⟨d, h, hd, rfl⟩, Derivation.describes h hd⟩

/-- `[QM<*+[I>.N<TT;>;`, an array of a member type. -/
def memberArray : Derivation :=
  .type (.reference 1 .written (.member (.one (.single 'M' (by decide)))
    (.more .unbounded (.one (.upper (.primitive 1 .int))))
    (.generic (.one (.single 'N' (by decide))) (.one (.exactly (.typeVariable 0 (.single 'T' (by decide))))))))

theorem parse_accepts_memberArray :
    memberArray.text = "[QM<*+[I>.N<TT;>;".toList ∧ memberArray.nesting ≤ maxNesting ∧
      ∃ sig, parse "[QM<*+[I>.N<TT;>;" = .ok sig ∧ sig.dims = 1 ∧
        sig.arguments.map Argument.encode = ["TT;".toList] ∧ sig.simpleName = "M<?, ? extends int[]>.N<T>[]" := by
  have text : memberArray.text = "[QM<*+[I>.N<TT;>;".toList := by decide
  have nesting : memberArray.nesting ≤ maxNesting := by decide
  obtain ⟨sig, hs, h⟩ := (parse_accepts_grammar "[QM<*+[I>.N<TT;>;").2.2 memberArray text nesting
  refine ⟨text, nesting, sig, hs, h.dims.trans (by decide), h.arguments.trans (by decide), ?_⟩
  rw [h.simpleName, ← String.toList_inj]
  decide

end TypeAtlas.Signature
