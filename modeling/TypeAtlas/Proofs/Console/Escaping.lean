import TypeAtlas.Console.Markup

/-! Escaped markup. Escaping inserts characters, so a text and its escaped form are the same as soon as they are
equally long. `escape` inserts nothing just in case no tag opens in the text and no single backslash ends it. -/

namespace TypeAtlas.Markup

/-- Every character of a text is in its escaped form, in order. -/
def Inserts (escape : String → String) : Prop := ∀ s : String, s.toList.Sublist (escape s).toList

namespace Inserts

variable {escape : String → String} {s : String}

theorem length_le (h : Inserts escape) : s.length ≤ (escape s).length := by
  rw [← String.length_toList, ← String.length_toList]
  exact (h s).length_le

theorem eq_of_length (h : Inserts escape) (same : s.length = (escape s).length) : escape s = s := by
  rw [← String.length_toList, ← String.length_toList] at same
  rw [← String.toList_inj, (h s).eq_of_length same]

end Inserts

def opensTag : List Char → Bool
  | [] => false
  | c :: cs => (c = '[' && isTag cs) || opensTag cs

/-- Whether the last character is a backslash, and the one before it is none. -/
def endsInBackslash (cs : List Char) : Bool :=
  match cs.reverse with
  | '\\' :: '\\' :: _ => false
  | '\\' :: _ => true
  | _ => false

/-- A text in which markup finds nothing of its own. -/
def IsPlain (s : String) : Prop := opensTag s.toList = false ∧ endsInBackslash s.toList = false

theorem replicate_append_cons (n : Nat) (c : Char) (cs : List Char) :
    List.replicate n c ++ c :: cs = List.replicate (n + 1) c ++ cs := by
  rw [List.replicate_succ', List.append_assoc, List.singleton_append]

theorem sublist_escapeFrom (cs : List Char) :
    ∀ pending, (List.replicate pending '\\' ++ cs).Sublist (escapeFrom pending cs) := by
  induction cs with
  | nil =>
    intro pending
    simp [escapeFrom]
  | cons c cs ih =>
    intro pending
    rw [escapeFrom]
    split
    · rename_i backslash
      rw [backslash, replicate_append_cons]
      exact ih (pending + 1)
    · split
      · rename_i tag
        rw [tag.1]
        exact .append (List.replicate_sublist_replicate _ |>.mpr (by omega)) ((ih 0).cons_cons '[')
      · exact .append (.refl _) ((ih 0).cons_cons c)

theorem sublist_closeBackslash (cs : List Char) : cs.Sublist (closeBackslash cs) := by
  unfold closeBackslash
  split
  · exact .refl cs
  · exact List.sublist_append_left cs _
  · exact .refl cs

theorem inserts_escape : Inserts escape := by
  intro s
  rw [escape, String.toList_ofList]
  exact (sublist_escapeFrom s.toList 0).trans (sublist_closeBackslash _)

/-- Without a tag nothing is added before the end. -/
theorem escapeFrom_eq_of_opensTag {cs : List Char} (h : opensTag cs = false) :
    ∀ pending, escapeFrom pending cs = List.replicate pending '\\' ++ cs := by
  induction cs with
  | nil =>
    intro pending
    rw [escapeFrom, List.append_nil]
  | cons c cs ih =>
    intro pending
    rw [opensTag, Bool.or_eq_false_iff] at h
    have noTag : ¬ (c = '[' ∧ isTag cs) := by simpa using h.1
    rw [escapeFrom, if_neg noTag]
    split
    · rename_i backslash
      rw [backslash, replicate_append_cons, ih h.2]
    · rw [ih h.2 0, List.replicate_zero, List.nil_append]

/-- A tag takes at least one more backslash. -/
theorem length_escapeFrom_of_opensTag {cs : List Char} (h : opensTag cs = true) :
    ∀ pending, pending + cs.length < (escapeFrom pending cs).length := by
  induction cs with
  | nil => cases h
  | cons c cs ih =>
    intro pending
    rw [opensTag, Bool.or_eq_true] at h
    rw [escapeFrom, List.length_cons]
    split
    · rename_i backslash
      have later : opensTag cs = true := by simpa [backslash] using h
      have := ih later (pending + 1)
      omega
    · split
      · have := (sublist_escapeFrom cs 0).length_le
        rw [List.replicate_zero, List.nil_append] at this
        simp only [List.length_append, List.length_replicate, List.length_cons]
        omega
      · rename_i noTag
        have later : opensTag cs = true := h.resolve_left (by simpa using noTag)
        have := ih later 0
        simp only [List.length_append, List.length_replicate, List.length_cons]
        omega

theorem closeBackslash_eq_self_iff (cs : List Char) : closeBackslash cs = cs ↔ endsInBackslash cs = false := by
  unfold closeBackslash endsInBackslash
  split <;> simp_all

/-- What escaping leaves as it is. -/
theorem escape_eq_self_iff (s : String) : escape s = s ↔ IsPlain s := by
  rw [escape, ← String.toList_inj, String.toList_ofList, IsPlain]
  refine ⟨fun same => ?_, fun ⟨noTag, closed⟩ => ?_⟩
  · have noTag : opensTag s.toList = false := by
      refine Bool.eq_false_iff.mpr fun tag => ?_
      have longer := length_escapeFrom_of_opensTag tag 0
      have := (sublist_closeBackslash (escapeFrom 0 s.toList)).length_le
      rw [same] at this
      omega
    rw [escapeFrom_eq_of_opensTag noTag, List.replicate_zero, List.nil_append] at same
    exact ⟨noTag, (closeBackslash_eq_self_iff _).mp same⟩
  · rw [escapeFrom_eq_of_opensTag noTag, List.replicate_zero, List.nil_append]
    exact (closeBackslash_eq_self_iff _).mpr closed

end TypeAtlas.Markup
