import TypeAtlas.Proofs.Signature.Grammar

/-! Names in signatures: the check for dotted names holds of the texts of `DottedName` and of no others,
and such a text can be split into names in one way only. Beside them stand the lemmas for taking a name
off the front of a text, and the markers of primitives and references. -/

namespace TypeAtlas

theorem takeWhile_append_cons {p : Char → Bool} {x r : List Char} {c : Char} (hx : ∀ a ∈ x, p a = true)
    (hc : p c = false) : (x ++ c :: r).takeWhile p = x := by
  rw [List.takeWhile_append_of_pos hx, List.takeWhile_cons_of_neg (by simp [hc]), List.append_nil]

theorem dropWhile_append_cons {p : Char → Bool} {x r : List Char} {c : Char} (hx : ∀ a ∈ x, p a = true)
    (hc : p c = false) : (x ++ c :: r).dropWhile p = c :: r := by
  rw [List.dropWhile_append_of_pos hx, List.dropWhile_cons_of_neg (by simp [hc])]

/-- A text by what is taken off its front and what stops it. -/
theorem eq_takeWhile_append_cons {p : Char → Bool} {s r : List Char} {c : Char} (h : s.dropWhile p = c :: r) :
    s = s.takeWhile p ++ c :: r ∧ p c = false := by
  refine ⟨?_, ?_⟩
  · rw [← h, List.takeWhile_append_dropWhile]
  · have := List.head?_dropWhile_not p s
    rw [h] at this
    simpa using this

namespace Signature

theorem Name.ext {x y : Name} (h : x.chars = y.chars) : x = y := by
  cases x
  cases y
  cases h
  rfl

theorem Name.isNameChar {x : Name} {c : Char} (h : c ∈ x.chars) : Signature.isNameChar c = true :=
  List.all_eq_true.mp x.all_chars c h

theorem isNamePart_of_isNameChar {c : Char} (h : isNameChar c = true) : isNamePart c = true := by
  simp [isNamePart, h]

theorem ne_of_isNameChar {c d : Char} (hd : isNameChar d = false) (h : isNameChar c = true) : c ≠ d := by
  rintro rfl
  rw [h] at hd
  cases hd

namespace DottedName

theorem isNamePart_of_mem {d : DottedName} {c : Char} (h : c ∈ d.text) : isNamePart c = true := by
  induction d with
  | one x => exact isNamePart_of_isNameChar (x.isNameChar h)
  | more x rest ih =>
    rcases List.mem_append.mp h with h | h
    · exact isNamePart_of_isNameChar (x.isNameChar h)
    · rcases List.mem_cons.mp h with rfl | h
      · rfl
      · exact ih h

theorem isDottedFrom_append {x : List Char} (hx : x.all isNameChar = true) (cs : List Char) :
    isDottedFrom false (x ++ cs) = isDottedFrom false cs := by
  induction x with
  | nil => rfl
  | cons c x ih =>
    rw [List.all_cons, Bool.and_eq_true] at hx
    rw [List.cons_append, isDottedFrom, if_neg (ne_of_isNameChar (by decide) hx.1), hx.1, Bool.true_and,
      ih hx.2]

theorem isDottedFrom_name (x : Name) (cs : List Char) :
    isDottedFrom true (x.chars ++ cs) = isDottedFrom false cs := by
  obtain ⟨_ | ⟨c, chars⟩, hne, hall⟩ := x
  · exact absurd rfl hne
  · rw [List.all_cons, Bool.and_eq_true] at hall
    rw [List.cons_append, isDottedFrom, if_neg (ne_of_isNameChar (by decide) hall.1), hall.1, Bool.true_and,
      isDottedFrom_append hall.2]

theorem isDottedName_text (d : DottedName) : isDottedName d.text = true := by
  unfold isDottedName
  induction d with
  | one x =>
    rw [text, ← List.append_nil x.chars, isDottedFrom_name]
    rfl
  | more x rest ih =>
    rw [text, isDottedFrom_name, isDottedFrom, if_pos rfl, ih]
    rfl

/-- What passes the check, after an open name or none. -/
theorem exists_text_eq (cs : List Char) :
    (isDottedFrom true cs = true → ∃ d : DottedName, d.text = cs) ∧
    (isDottedFrom false cs = true → ∀ x : Name, ∃ d : DottedName, d.text = x.chars ++ cs) := by
  induction cs with
  | nil =>
    refine ⟨?_, ?_⟩
    · intro h
      cases h
    · intro _ x
      exact ⟨.one x, by simp [text]⟩
  | cons c cs ih =>
    by_cases hc : c = '.'
    · refine ⟨?_, ?_⟩
      · intro h
        simp [isDottedFrom, hc] at h
      · intro h x
        rw [isDottedFrom, if_pos hc] at h
        obtain ⟨d, hd⟩ := ih.1 h
        exact ⟨.more x d, by rw [text, hd, hc]⟩
    · refine ⟨?_, ?_⟩
      · intro h
        rw [isDottedFrom, if_neg hc, Bool.and_eq_true] at h
        exact ih.2 h.2 ⟨[c], by simp, by simp [h.1]⟩
      · intro h x
        rw [isDottedFrom, if_neg hc, Bool.and_eq_true] at h
        obtain ⟨d, hd⟩ := ih.2 h.2 ⟨x.chars ++ [c], by simp, by simp [x.all_chars, h.1]⟩
        exact ⟨d, by simpa using hd⟩

/-- A text can be split into names in one way. -/
theorem text_injective {d d' : DottedName} (h : d.text = d'.text) : d = d' := by
  have hdot : isNameChar '.' = false := by decide
  induction d generalizing d' with
  | one x =>
    cases d' with
    | one y => rw [Name.ext h]
    | more y rest =>
      have hmem : '.' ∈ x.chars := by
        rw [show x.chars = y.chars ++ '.' :: rest.text from h]
        simp
      exact absurd rfl (ne_of_isNameChar hdot (x.isNameChar hmem))
  | more x rest ih =>
    cases d' with
    | one y =>
      have hmem : '.' ∈ y.chars := by
        rw [show y.chars = x.chars ++ '.' :: rest.text from h.symm]
        simp
      exact absurd rfl (ne_of_isNameChar hdot (y.isNameChar hmem))
    | more y rest' =>
      have hx : x.chars = y.chars := by
        have := congrArg (List.takeWhile isNameChar) h
        rwa [text, text, takeWhile_append_cons (fun _ => x.isNameChar) hdot,
          takeWhile_append_cons (fun _ => y.isNameChar) hdot] at this
      rw [text, text, hx] at h
      rw [Name.ext hx, ih (List.cons.inj (List.append_cancel_left h)).2]

end DottedName

theorem isDottedName_iff {cs : List Char} : isDottedName cs = true ↔ ∃ d : DottedName, d.text = cs := by
  refine ⟨?_, ?_⟩
  · exact (DottedName.exists_text_eq cs).1
  · rintro ⟨d, rfl⟩
    exact d.isDottedName_text

end Signature

theorem Primitive.ofMarker?_marker (p : Primitive) : Primitive.ofMarker? p.marker = some p := by
  cases p <;> rfl

theorem Primitive.marker_of_ofMarker? {c : Char} {p : Primitive} (h : Primitive.ofMarker? c = some p) :
    p.marker = c := by
  unfold Primitive.ofMarker? at h
  split at h <;> cases h <;> rfl

theorem Signature.Origin.ofMarker?_marker (o : Origin) : Origin.ofMarker? o.marker = some o := by
  cases o <;> rfl

theorem Signature.Origin.marker_of_ofMarker? {c : Char} {o : Origin} (h : Origin.ofMarker? c = some o) :
    o.marker = c := by
  unfold Origin.ofMarker? at h
  split at h <;> cases h <;> rfl

end TypeAtlas
