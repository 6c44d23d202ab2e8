import TypeAtlas.Proofs.Signature.Acceptance
import TypeAtlas.Proofs.Text.Dotted

/-! Erasure of readable types. Type arguments go as a whole, whatever is nested in them, and the names
outside of them stay; where these make no dotted name there is one only, which is the type's raw name. -/

namespace TypeAtlas

namespace Text

/-- What leaves nothing inside of type arguments, however deep. -/
def Vanishes (cs : List Char) : Prop := ∀ depth : Int, 0 < depth → ∀ r, eraseFrom depth (cs ++ r) = eraseFrom depth r

namespace Vanishes

theorem of_plain {cs : List Char} (h : ∀ c ∈ cs, c ≠ '<' ∧ c ≠ '>') : Vanishes cs := by
  intro depth inside r
  induction cs with
  | nil => rfl
  | cons c cs ih =>
    obtain ⟨opens, closes⟩ := h c List.mem_cons_self
    have deep : ¬ (depth = 0 ∧ c ≠ '[' ∧ c ≠ ']' ∧ c ≠ ' ') := fun h => by omega
    rw [List.cons_append, eraseFrom, if_neg opens, if_neg closes, if_neg deep]
    exact ih fun d hd => h d (List.mem_cons_of_mem c hd)

theorem append {cs ds : List Char} (hc : Vanishes cs) (hd : Vanishes ds) : Vanishes (cs ++ ds) := by
  intro depth inside r
  rw [List.append_assoc, hc depth inside, hd depth inside]

/-- Arguments are erased also where they are not inside of others. -/
theorem eraseFrom_arguments {cs : List Char} (h : Vanishes cs) {depth : Int} (outside : 0 ≤ depth) (r : List Char) :
    eraseFrom depth ('<' :: cs ++ '>' :: r) = eraseFrom depth r := by
  rw [List.cons_append, eraseFrom, if_pos rfl, h (depth + 1) (by omega), eraseFrom, if_neg (by decide), if_pos rfl,
    Int.add_sub_cancel]

theorem arguments {cs : List Char} (h : Vanishes cs) : Vanishes ('<' :: cs ++ ['>']) := by
  intro depth inside r
  rw [List.append_assoc]
  exact h.eraseFrom_arguments (Int.le_of_lt inside) r

end Vanishes

theorem vanishes_brackets : (n : Nat) → Vanishes (brackets n)
  | 0 => .of_plain nofun
  | n + 1 => by
    have one : Vanishes ['[', ']'] := .of_plain (by simp)
    exact one.append (vanishes_brackets n)

end Text

namespace Signature

open Text

theorem DottedName.kept {x : DottedName} {c : Char} (h : c ∈ x.text) :
    c ≠ '<' ∧ c ≠ '>' ∧ c ≠ '[' ∧ c ≠ ']' ∧ c ≠ ' ' := by
  have part := x.isNamePart_of_mem h
  refine ⟨?_, ?_, ?_, ?_, ?_⟩ <;>
  · rintro rfl
    revert part
    decide

theorem Name.kept {x : Name} {c : Char} (h : c ∈ x.chars) : c ≠ '<' ∧ c ≠ '>' ∧ c ≠ '[' ∧ c ≠ ']' ∧ c ≠ ' ' :=
  (DottedName.one x).kept h

theorem DottedName.vanishes (x : DottedName) : Vanishes x.text := .of_plain fun _ h => ⟨(x.kept h).1, (x.kept h).2.1⟩

theorem Primitive.kept (p : Primitive) :
    ∀ c ∈ p.name.toList, c ≠ '<' ∧ c ≠ '>' ∧ c ≠ '[' ∧ c ≠ ']' ∧ c ≠ ' ' := by
  cases p <;> simp [Primitive.name]

mutual

theorem TypeTree.vanishes : (t : TypeTree) → Vanishes t.shown
  | .primitive n p =>
    .append (.of_plain fun c h => ⟨(Primitive.kept p c h).1, (Primitive.kept p c h).2.1⟩) (vanishes_brackets n)
  | .typeVariable n x => .append (DottedName.one x).vanishes (vanishes_brackets n)
  | .reference n _ body => .append body.vanishes (vanishes_brackets n)

theorem BodyTree.vanishes : (body : BodyTree) → Vanishes body.shown
  | .plain x => x.vanishes
  | .generic x as => by
    rw [BodyTree.shown, List.append_assoc]
    exact x.vanishes.append as.vanishes.arguments
  | .member x as inner => by
    have dot : Vanishes ['.'] := .of_plain (by simp)
    have whole := x.vanishes.append (as.vanishes.arguments.append (dot.append inner.vanishes))
    rw [BodyTree.shown]
    simpa using whole

theorem ArgumentTrees.vanishes : (as : ArgumentTrees) → Vanishes as.shown
  | .one a => a.vanishes
  | .more a as => by
    have comma : Vanishes [',', ' '] := .of_plain (by simp)
    exact a.vanishes.append (comma.append as.vanishes)

theorem ArgumentTree.vanishes : (a : ArgumentTree) → Vanishes a.shown
  | .unbounded => .of_plain (by simp [ArgumentTree.shown])
  | .exactly t => t.vanishes
  | .upper t => .append (.of_plain (by simp)) t.vanishes
  | .lower t => .append (.of_plain (by simp)) t.vanishes

end

def BodyTree.erased : BodyTree → List Char
  | .plain x => x.text
  | .generic x _ => x.text
  | .member x _ inner => x.text ++ '.' :: inner.erased

theorem BodyTree.eraseFrom_shown : (body : BodyTree) → eraseFrom 0 body.shown = body.erased
  | .plain x => by rw [BodyTree.shown, BodyTree.erased, eraseFrom_eq_self fun _ => x.kept]
  | .generic x as => by
    rw [BodyTree.shown, BodyTree.erased, List.append_assoc, eraseFrom_kept_append fun _ => x.kept,
      as.vanishes.eraseFrom_arguments (Int.le_refl 0), eraseFrom, List.append_nil]
  | .member x as inner => by
    have gone := as.vanishes.eraseFrom_arguments (Int.le_refl 0) ('.' :: inner.shown)
    have dot : eraseFrom 0 (['.'] ++ inner.shown) = ['.'] ++ eraseFrom 0 inner.shown :=
      eraseFrom_kept_append (by simp) inner.shown
    rw [BodyTree.shown, BodyTree.erased, List.append_assoc, eraseFrom_kept_append fun _ => x.kept, gone,
      ← inner.eraseFrom_shown]
    exact congrArg (x.text ++ ·) dot

/-- A name without type arguments is not cut. -/
theorem takeWhile_kept {cs : List Char} (kept : ∀ c ∈ cs, c ≠ '<' ∧ c ≠ '>' ∧ c ≠ '[' ∧ c ≠ ']' ∧ c ≠ ' ') :
    cs.takeWhile (· != '<') = cs :=
  List.takeWhile_eq_self_iff.mpr fun c hc => bne_iff_ne.mpr (kept c hc).1

/-- A name is what stands before the first argument list. -/
theorem DottedName.takeWhile_text (x : DottedName) (r : List Char) : (x.text ++ '<' :: r).takeWhile (· != '<') = x.text :=
  takeWhile_append_cons (fun _ hc => bne_iff_ne.mpr (x.kept hc).1) rfl

/-- One name before the first argument list, if the names make no dotted one. -/
theorem BodyTree.takeWhile_shown {body : BodyTree} (h : '.' ∉ body.erased) :
    body.shown.takeWhile (· != '<') = body.erased := by
  cases body with
  | plain x => exact takeWhile_kept fun _ => x.kept
  | generic x as =>
    rw [BodyTree.shown, BodyTree.erased, List.append_assoc, List.cons_append, x.takeWhile_text]
  | member x as inner =>
    rw [BodyTree.erased] at h
    simp at h

/-- The raw name of a type without a dotted name. -/
theorem TypeTree.takeWhile_element {t : TypeTree} (h : '.' ∉ eraseFrom 0 t.element.shown) :
    t.element.shown.takeWhile (· != '<') = eraseFrom 0 t.element.shown := by
  cases t with
  | primitive n p =>
    rw [TypeTree.element, TypeTree.shown, brackets, List.append_nil, takeWhile_kept (Primitive.kept p),
      eraseFrom_eq_self (Primitive.kept p)]
  | typeVariable n x =>
    rw [TypeTree.element, TypeTree.shown, brackets, List.append_nil, takeWhile_kept fun _ => x.kept,
      eraseFrom_eq_self fun _ => x.kept]
  | reference n origin body =>
    rw [TypeTree.element, TypeTree.shown, brackets, List.append_nil, body.eraseFrom_shown] at h ⊢
    exact body.takeWhile_shown h

end Signature
end TypeAtlas
