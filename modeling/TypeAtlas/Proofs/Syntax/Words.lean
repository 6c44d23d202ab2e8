import Mathlib.Data.List.Basic
import TypeAtlas.Syntax.Token

/-! What the scan of a text takes for words: they consist of the characters of words alone. -/

namespace TypeAtlas.Syntax

namespace Token

/-- A word has no other characters than those of words. -/
def Wordy (t : Token) : Prop := t.kind = .word → ∀ c ∈ t.text.toList, isWordChar c

variable {source : Array Char} {mode : Mode} {start pos line : Nat} {acc : List Token} {c : Char} {cs : List Char}

theorem head_of_not_endsWord (h : ¬ endsWord cs) : ∀ c ∈ cs.head?, isWordChar c := by
  cases cs with
  | nil => nofun
  | cons c cs => simpa [endsWord] using h

theorem slice_succ (rest : source.toList.drop pos = c :: cs) (le : start ≤ pos) :
    (slice source start (pos + 1)).toList = (slice source start pos).toList ++ [c] := by
  have at_pos : source.toList[pos]? = some c := by rw [← List.head?_drop, rest, List.head?_cons]
  have next : (source.toList.drop start)[pos - start]? = some c := by
    rw [List.getElem?_drop, Nat.add_sub_cancel' le, at_pos]
  simp only [slice, String.toList_ofList, Array.toList_extract, List.extract_eq_take_drop]
  rw [Nat.succ_sub le, List.take_add_one, next]
  rfl

/-- The character at a place is in a word from `start` on. -/
def InWord (mode : Mode) (pos : Nat) (c : Char) (start : Nat) : Prop :=
  mode = .word start ∨ mode = .between ∧ start = pos ∧ isWordChar c

/-- The step inside a word: it ends the word or goes on in it. -/
def wordStep (source : Array Char) (start pos line : Nat) (cs : List Char) : Step :=
  if endsWord cs then
    { mode := .between, line := line, token := some ⟨.word, slice source start (pos + 1), start, pos + 1, line⟩ }
  else { mode := .word start, line := line }

/-- A step without any part of a word. -/
structure Step.Wordless (s : Step) : Prop where
  taken : 1 ≤ s.taken
  mode : ∀ start, s.mode ≠ .word start
  token : ∀ t ∈ s.token, t.kind ≠ .word

theorem step_cases (source : Array Char) (mode : Mode) (pos line : Nat) (c : Char) (cs : List Char) :
    (∃ start, InWord mode pos c start ∧ step source mode pos line c cs = wordStep source start pos line cs) ∨
      (step source mode pos line c cs).Wordless := by
  cases mode with
  | word start => exact .inl ⟨start, .inl rfl, rfl⟩
  | between =>
    by_cases blank : Text.isBlank c
    · refine .inr ?_
      simp only [step, if_pos blank]
      exact ⟨Nat.le_refl 1, nofun, nofun⟩
    by_cases word : isWordChar c
    · refine .inl ⟨pos, .inr ⟨rfl, rfl, word⟩, ?_⟩
      simp only [step, if_neg blank, if_pos word, wordStep]
    · refine .inr ?_
      simp only [step, if_neg blank, if_neg word]
      split_ifs <;> constructor <;> simp
  | lineComment =>
    refine .inr ⟨Nat.le_refl 1, fun start => ?_, nofun⟩
    dsimp only [step]
    split_ifs <;> nofun
  | blockComment =>
    refine .inr ?_
    dsimp only [step]
    split_ifs <;> constructor <;> simp
  | quoted quote start first =>
    refine .inr ?_
    dsimp only [step]
    split_ifs <;> constructor <;> simp
  | textBlock start first =>
    refine .inr ?_
    dsimp only [step]
    split_ifs <;> constructor <;> simp

/-- The scan is at a place of its source; a word that it is in the middle of has begun before and goes on. -/
structure Scanning (source : Array Char) (mode : Mode) (pos : Nat) (cs : List Char) : Prop where
  rest : source.toList.drop pos = cs
  begun : ∀ start, mode = .word start → start ≤ pos ∧ ∀ c ∈ (slice source start pos).toList, isWordChar c
  goesOn : ∀ start, mode = .word start → ∀ c ∈ cs.head?, isWordChar c

theorem Scanning.inWord (h : Scanning source mode pos (c :: cs)) (inWord : InWord mode pos c start) :
    start ≤ pos ∧ ∀ d ∈ (slice source start (pos + 1)).toList, isWordChar d := by
  have char : isWordChar c := by
    rcases inWord with word | ⟨-, -, first⟩
    · exact h.goesOn start word c rfl
    · exact first
  have before : start ≤ pos ∧ ∀ d ∈ (slice source start pos).toList, isWordChar d := by
    rcases inWord with word | ⟨-, rfl, -⟩
    · exact h.begun start word
    · exact ⟨Nat.le_refl _, by simp [slice]⟩
  refine ⟨before.1, fun d hd => ?_⟩
  rw [slice_succ h.rest before.1, List.mem_append, List.mem_singleton] at hd
  rcases hd with hd | rfl
  · exact before.2 d hd
  · exact char

theorem scanning_step (h : Scanning source mode pos (c :: cs)) {s : Step} (hs : step source mode pos line c cs = s) :
    Scanning source s.mode (pos + s.taken) (cs.drop (s.taken - 1)) ∧ ∀ t ∈ s.token, Wordy t := by
  have next (n : Nat) (hn : 1 ≤ n) : source.toList.drop (pos + n) = cs.drop (n - 1) := by
    obtain ⟨n, rfl⟩ := Nat.exists_eq_add_of_le' hn
    rw [← List.drop_drop, h.rest, List.drop_succ_cons, Nat.add_sub_cancel]
  rcases step_cases source mode pos line c cs with ⟨start, inWord, eq⟩ | wordless
  · obtain ⟨le, chars⟩ := h.inWord inWord
    rw [eq, wordStep] at hs
    split at hs
    · subst hs
      refine ⟨⟨next 1 (Nat.le_refl 1), nofun, nofun⟩, ?_⟩
      rintro _ ⟨⟩ -
      exact chars
    · rename_i ends
      subst hs
      refine ⟨⟨next 1 (Nat.le_refl 1), ?_, fun _ _ => head_of_not_endsWord ends⟩, nofun⟩
      rintro _ ⟨⟩
      exact ⟨Nat.le_succ_of_le le, chars⟩
  · rw [hs] at wordless
    exact ⟨⟨next _ wordless.taken, fun start word => (wordless.mode start word).elim,
      fun start word => (wordless.mode start word).elim⟩, fun t ht word => absurd word (wordless.token t ht)⟩

theorem wordy_scan (h : Scanning source mode pos cs) (hacc : ∀ t ∈ acc, Wordy t) :
    ∀ t ∈ scan source mode pos line acc cs, Wordy t := by
  fun_induction scan source mode pos line acc cs with
  | case1 mode pos line acc => simpa using hacc
  | case2 mode pos line acc c cs s ih =>
    obtain ⟨next, token⟩ := scanning_step h rfl
    refine ih next fun t ht => ?_
    rcases List.mem_append.mp ht with ht | ht
    · exact token t (Option.mem_toList.mp ht)
    · exact hacc t ht

/-- All words of a text consist of the characters of words. -/
theorem wordy_ofText (source : String) : ∀ t ∈ ofText source, Wordy t := by
  unfold ofText
  split
  · rename_i cs mark
    exact wordy_scan ⟨by rw [List.toList_toArray, mark]; rfl, nofun, nofun⟩ nofun
  · exact wordy_scan ⟨by rw [List.toList_toArray]; rfl, nofun, nofun⟩ nofun

theorem Wordy.not_mem {t : Token} (h : t.Wordy) (word : t.kind = .word) : '.' ∉ t.text.toList :=
  fun dot => absurd (h word '.' dot) (by decide)

end Token
end TypeAtlas.Syntax
