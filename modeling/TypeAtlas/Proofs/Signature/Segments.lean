import TypeAtlas.Proofs.Signature.Reading

/-! Derivations read from the left. A reference begins with a name, and a plain text in front of the end
of a name can only be that name; the first character of a type tells whether it is a primitive, a type
variable, a reference or an array. -/

namespace TypeAtlas.Signature

def IsName (s : String) : Prop := ∃ x : Name, x.chars = s.toList

def endsName (c : Char) : Bool := c == '.' || c == ';' || c == '<'

/-- A text that ends no name, whatever else is in it. -/
def Plain (s : String) : Prop := ∀ c ∈ s.toList, endsName c = false

theorem Name.endsName_eq_false {x : Name} {c : Char} (h : c ∈ x.chars) : endsName c = false := by
  have hc := x.isNameChar h
  have dot : c ≠ '.' := ne_of_isNameChar (by decide) hc
  have semicolon : c ≠ ';' := ne_of_isNameChar (by decide) hc
  have bracket : c ≠ '<' := ne_of_isNameChar (by decide) hc
  simp [endsName, dot, semicolon, bracket]

/-- What may follow a name in a reference, with `r` after the reference: arguments only if there were none
since the name. -/
inductive Follows (r : List Char) : (bare : Bool) → List Char → Prop
  | close {bare : Bool} : Follows r bare (';' :: r)
  | member {bare : Bool} (body : BodyTree) : Follows r bare ('.' :: (body.text ++ r))
  | arguments (as : ArgumentTrees) {rest : List Char} (h : Follows r false rest) :
      Follows r true ('<' :: as.text ++ '>' :: rest)

variable {r rest : List Char} {c : Char}

namespace Follows

variable {bare : Bool} {s : List Char}

theorem eq_cons (h : Follows r bare s) : ∃ c rest, s = c :: rest ∧ endsName c := by
  cases h with
  | close => exact ⟨';', _, rfl, rfl⟩
  | member body => exact ⟨'.', _, rfl, rfl⟩
  | arguments as h => exact ⟨'<', _, rfl, rfl⟩

theorem of_close (h : Follows r bare (';' :: s)) : r = s := by
  cases h
  rfl

theorem of_member (h : Follows r bare ('.' :: s)) : ∃ body : BodyTree, body.text ++ r = s := by
  generalize hs : '.' :: s = s' at h
  cases h with
  | close => cases hs
  | member body => exact ⟨body, (List.cons.inj hs).2.symm⟩
  | arguments as h => cases hs

theorem of_arguments (h : Follows r bare ('<' :: s)) :
    bare = true ∧ ∃ (as : ArgumentTrees) (rest : List Char), as.text ++ '>' :: rest = s ∧ Follows r false rest := by
  generalize hs : '<' :: s = s' at h
  cases h with
  | close => cases hs
  | member body => cases hs
  | arguments as h => exact ⟨rfl, as, _, (List.cons.inj hs).2.symm, h⟩

end Follows

namespace BodyTree

/-- The first name of a reference, and what follows it. -/
theorem name_follows (body : BodyTree) (r : List Char) :
    ∃ (x : Name) (s : List Char), body.text ++ r = x.chars ++ s ∧ Follows r true s := by
  cases body with
  | plain d =>
    cases d with
    | one x => exact ⟨x, _, by simp [text, DottedName.text], .close⟩
    | more x d => exact ⟨x, _, by simp [text, DottedName.text], .member (.plain d)⟩
  | generic d as =>
    cases d with
    | one x => exact ⟨x, _, by simp [text, DottedName.text], .arguments as .close⟩
    | more x d => exact ⟨x, _, by simp [text, DottedName.text], .member (.generic d as)⟩
  | member d as inner =>
    cases d with
    | one x => exact ⟨x, _, by simp [text, DottedName.text], .arguments as (.member inner)⟩
    | more x d => exact ⟨x, _, by simp [text, DottedName.text], .member (.member d as inner)⟩

theorem isName_of_plain {s : String} {body : BodyTree} (plain : Plain s) (ends : endsName c)
    (h : body.text ++ r = s.toList ++ c :: rest) : IsName s ∧ Follows r true (c :: rest) := by
  obtain ⟨x, tail, hx, follows⟩ := body.name_follows r
  obtain ⟨d, tail, rfl, hd⟩ := follows.eq_cons
  -- neither the name nor the text ends a name, so both stop at the first character that does
  have same : x.chars ++ d :: tail = s.toList ++ c :: rest := hx.symm.trans h
  have chars := congrArg (List.takeWhile (! endsName ·)) same
  rw [takeWhile_append_cons (fun a ha => by simp [Name.endsName_eq_false ha]) (by simp [hd]),
    takeWhile_append_cons (fun a ha => by simp [plain a ha]) (by simp [ends])] at chars
  rw [chars, List.append_cancel_left_eq] at same
  exact ⟨⟨x, chars⟩, same ▸ follows⟩

end BodyTree

namespace TypeTree

/-- What a type's text begins with. -/
theorem text_eq (t : TypeTree) :
    (∃ p : Primitive, t.text = [p.marker]) ∨ (∃ s, t.text = 'T' :: s) ∨ (∃ s, t.text = 'L' :: s) ∨
      (∃ body : BodyTree, t.text = 'Q' :: body.text) ∨ ∃ u : TypeTree, t.text = '[' :: u.text := by
  cases t with
  | primitive n p =>
    cases n with
    | zero => exact .inl ⟨p, rfl⟩
    | succ n => exact .inr (.inr (.inr (.inr ⟨.primitive n p, rfl⟩)))
  | typeVariable n x =>
    cases n with
    | zero => exact .inr (.inl ⟨_, rfl⟩)
    | succ n => exact .inr (.inr (.inr (.inr ⟨.typeVariable n x, rfl⟩)))
  | reference n o body =>
    cases n with
    | zero =>
      cases o with
      | written => exact .inr (.inr (.inr (.inl ⟨body, rfl⟩)))
      | resolved => exact .inr (.inr (.inl ⟨_, rfl⟩))
    | succ n => exact .inr (.inr (.inr (.inr ⟨.reference n o body, rfl⟩)))

/-- Brackets in front of a type are its dimensions. -/
theorem eq_of_dims {t : TypeTree} {s : List Char} (n : Nat) (h : t.text ++ r = List.replicate n '[' ++ s) :
    ∃ u : TypeTree, u.text ++ r = s := by
  induction n generalizing t with
  | zero => exact ⟨t, h⟩
  | succ n ih =>
    rw [List.replicate_succ, List.cons_append] at h
    rcases t.text_eq with ⟨p, ht⟩ | ⟨s, ht⟩ | ⟨s, ht⟩ | ⟨body, ht⟩ | ⟨u, ht⟩ <;>
      rw [ht, List.cons_append, List.cons.injEq] at h
    · exact absurd h.1 (by cases p <;> decide)
    · exact absurd h.1 (by decide)
    · exact absurd h.1 (by decide)
    · exact absurd h.1 (by decide)
    · exact ih h.2

theorem eq_of_marker {t : TypeTree} {p : Primitive} {s : List Char} (h : t.text ++ r = p.marker :: s) : r = s := by
  rcases t.text_eq with ⟨q, ht⟩ | ⟨s, ht⟩ | ⟨s, ht⟩ | ⟨body, ht⟩ | ⟨u, ht⟩ <;>
    rw [ht, List.cons_append, List.cons.injEq] at h
  · exact h.2
  · exact absurd h.1 (by cases p <;> decide)
  · exact absurd h.1 (by cases p <;> decide)
  · exact absurd h.1 (by cases p <;> decide)
  · exact absurd h.1 (by cases p <;> decide)

theorem eq_of_reference {t : TypeTree} {s : List Char} (h : t.text ++ r = 'Q' :: s) :
    ∃ body : BodyTree, body.text ++ r = s := by
  rcases t.text_eq with ⟨q, ht⟩ | ⟨s, ht⟩ | ⟨s, ht⟩ | ⟨body, ht⟩ | ⟨u, ht⟩ <;>
    rw [ht, List.cons_append, List.cons.injEq] at h
  · exact absurd h.1 (by cases q <;> decide)
  · exact absurd h.1 (by decide)
  · exact absurd h.1 (by decide)
  · exact ⟨body, h.2⟩
  · exact absurd h.1 (by decide)

end TypeTree

theorem ArgumentTree.text_eq_cons (a : ArgumentTree) : ∃ c rest, a.text = c :: rest ∧ c ≠ '>' := by
  cases a with
  | unbounded => exact ⟨'*', [], rfl, by decide⟩
  | exactly t =>
    obtain ⟨c, rest, h, hc, -⟩ := t.text_eq_cons
    exact ⟨c, rest, h, hc⟩
  | upper t => exact ⟨'+', _, rfl, by decide⟩
  | lower t => exact ⟨'-', _, rfl, by decide⟩

theorem ArgumentTrees.text_eq_flatMap (as : ArgumentTrees) : as.text = as.toList.flatMap ArgumentTree.text := by
  induction as using ArgumentTrees.toList.induct with
  | case1 a => simp [ArgumentTrees.toList, ArgumentTrees.text]
  | case2 a as ih => simp [ArgumentTrees.toList, ArgumentTrees.text, ih]

end TypeAtlas.Signature
