import Mathlib.Data.List.TakeWhile
import TypeAtlas.Signature.Basic
import TypeAtlas.Text.Dotted
import TypeAtlas.Text.Erasure

/-! Written names under erasure, and dotted names cut at their first dot. What is left by erasure is
not erased any further, and dimensions leave nothing. -/

namespace TypeAtlas.Text

theorem eraseFrom_append_brackets (cs : List Char) (n : Nat) :
    ∀ depth, eraseFrom depth (cs ++ brackets n) = eraseFrom depth cs := by
  induction cs with
  | nil =>
    induction n with
    | zero => exact fun _ => rfl
    | succ n ih =>
      intro depth
      have := ih depth
      simp [brackets, eraseFrom] at this ⊢
      exact this
  | cons c cs ih =>
    intro depth
    simp only [List.cons_append, eraseFrom, ih]

/-- Erasure at the outermost level leaves only what it would leave again. -/
theorem mem_eraseFrom {c : Char} {cs : List Char} :
    ∀ {depth}, c ∈ eraseFrom depth cs → c ≠ '<' ∧ c ≠ '>' ∧ c ≠ '[' ∧ c ≠ ']' ∧ c ≠ ' ' := by
  induction cs with
  | nil => exact fun h => absurd h List.not_mem_nil
  | cons d cs ih =>
    intro depth h
    unfold eraseFrom at h
    split at h
    · exact ih h
    · split at h
      · exact ih h
      · split at h
        · rename_i h₁ h₂ h₃
          rcases List.mem_cons.mp h with rfl | h
          · exact ⟨h₁, h₂, h₃.2⟩
          · exact ih h
        · exact ih h

theorem eraseFrom_kept_append {cs : List Char}
    (h : ∀ c ∈ cs, c ≠ '<' ∧ c ≠ '>' ∧ c ≠ '[' ∧ c ≠ ']' ∧ c ≠ ' ') (r : List Char) :
    eraseFrom 0 (cs ++ r) = cs ++ eraseFrom 0 r := by
  induction cs with
  | nil => rfl
  | cons c cs ih =>
    obtain ⟨h₁, h₂, h₃⟩ := h c List.mem_cons_self
    rw [List.cons_append, eraseFrom, if_neg h₁, if_neg h₂, if_pos ⟨rfl, h₃⟩,
      ih fun d hd => h d (List.mem_cons_of_mem c hd), List.cons_append]

theorem eraseFrom_eq_self {cs : List Char} (h : ∀ c ∈ cs, c ≠ '<' ∧ c ≠ '>' ∧ c ≠ '[' ∧ c ≠ ']' ∧ c ≠ ' ') :
    eraseFrom 0 cs = cs := by
  have whole := eraseFrom_kept_append h []
  rwa [List.append_nil, eraseFrom, List.append_nil] at whole

theorem erase_erase (s : String) : erase (erase s) = erase s := by
  unfold erase
  rw [String.toList_ofList, eraseFrom_eq_self fun c => mem_eraseFrom]

theorem eq_of_afterHead? {s rest : String} (h : afterHead? s = some rest) : s = headSegment s ++ "." ++ rest := by
  unfold afterHead? at h
  split at h
  · cases h
  · rename_i c cs hc
    cases h
    have dot : c = '.' := by
      have := List.head?_dropWhile_not (· != '.') s.toList
      simpa [hc] using this
    rw [← String.toList_inj]
    simpa [headSegment, hc, dot] using (List.takeWhile_append_dropWhile (p := (· != '.')) (l := s.toList)).symm

theorem headSegment_of_afterHead? {s : String} (h : afterHead? s = none) : headSegment s = s := by
  unfold afterHead? at h
  split at h
  · rename_i hc
    have split := List.takeWhile_append_dropWhile (p := (· != '.')) (l := s.toList)
    rw [hc, List.append_nil] at split
    rw [headSegment, split, String.ofList_toList]
  · cases h

theorem dot_not_mem_headSegment (s : String) : '.' ∉ (headSegment s).toList := by
  rw [headSegment, String.toList_ofList]
  intro mem
  simpa using List.mem_takeWhile_imp mem

theorem dot_not_mem_of_afterHead? {s : String} (h : afterHead? s = none) : '.' ∉ s.toList := by
  rw [← headSegment_of_afterHead? h]
  exact dot_not_mem_headSegment s

theorem afterHead?_of_dot_not_mem {s : String} (h : '.' ∉ s.toList) : afterHead? s = none := by
  cases after : afterHead? s with
  | none => rfl
  | some rest =>
    rw [eq_of_afterHead? after] at h
    simp at h

/-- The first segment of what is left by erasure is not erased any further. -/
theorem erase_headSegment_erase (s : String) : erase (headSegment (erase s)) = headSegment (erase s) := by
  have kept (c : Char) (hc : c ∈ (headSegment (erase s)).toList) : c ∈ eraseFrom 0 s.toList := by
    rw [headSegment, erase, String.toList_ofList, String.toList_ofList] at hc
    exact (List.takeWhile_sublist _).subset hc
  rw [erase, eraseFrom_eq_self fun c hc => mem_eraseFrom (kept c hc), String.ofList_toList]

theorem simpleName_member (owner name : String) : simpleName (owner ++ "." ++ name) = simpleName name := by
  have stop (x y : List Char) : (x ++ '.' :: y).takeWhile (· != '.') = x.takeWhile (· != '.') := by
    induction x with
    | nil => rfl
    | cons c x ih => simp only [List.cons_append, List.takeWhile_cons, ih]
  rw [← String.toList_inj]
  simp [simpleName, afterLastDot, stop]

theorem simpleName_qualify (owner name : String) : simpleName (qualify owner name) = simpleName name := by
  unfold qualify
  split
  · rfl
  · exact simpleName_member owner name

/-- Every name ends in its simple name. -/
theorem eq_simpleName_or_member (s : String) : s = simpleName s ∨ ∃ q, s = q ++ "." ++ simpleName s := by
  have split : s.toList = (s.toList.reverse.dropWhile (· != '.')).reverse ++ afterLastDot s.toList := by
    rw [afterLastDot, ← List.reverse_append, List.takeWhile_append_dropWhile, List.reverse_reverse]
  cases before : s.toList.reverse.dropWhile (· != '.') with
  | nil =>
    rw [before] at split
    exact .inl (String.toList_inj.mp (by rw [simpleName, String.toList_ofList]; exact split))
  | cons c q =>
    have dot : c = '.' := by
      have := List.head?_dropWhile_not (· != '.') s.toList.reverse
      simpa [before] using this
    rw [before, dot] at split
    refine .inr ⟨String.ofList q.reverse, String.toList_inj.mp ?_⟩
    rw [split]
    simp [simpleName]

/-- No name is a member of itself. -/
theorem member_ne (owner name : String) : owner ++ "." ++ name ≠ name := by
  intro h
  have := congrArg (·.toList.length) h
  simp at this
  omega

theorem append_dot_cancel {a b rest : String} (h : a ++ "." ++ rest = b ++ "." ++ rest) : a = b := by
  rw [← String.toList_inj] at h ⊢
  simpa using h

end TypeAtlas.Text

namespace TypeAtlas

/-- The element type of a written type has the same name. -/
theorem Signature.erase_element (sig : Signature) : Text.erase sig.element.simpleName = Text.erase sig.simpleName := by
  cases sig with
  | void => rfl
  | type t =>
    unfold Text.erase Signature.simpleName
    cases t <;>
      simp [Signature.element, TypeSig.element, Signature.render, TypeSig.render, Text.eraseFrom_append_brackets]

end TypeAtlas
