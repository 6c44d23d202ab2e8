import Mathlib.Data.List.Forall2
import Mathlib.Data.List.Nodup

/-! Two views of a list. Where no two elements have the same key, what is found under a key is the element
with this key, wherever it stands; and where two lists are related pair by pair, every element of one has a
partner in the other, and there is such a list wherever every element has a partner. -/

namespace TypeAtlas

variable {α : Type} {key : α → String} {as bs : List α}

theorem find?_key_iff (nodup : (as.map key).Nodup) {n : String} {a : α} :
    as.find? (key · == n) = some a ↔ a ∈ as ∧ key a = n := by
  refine ⟨?_, ?_⟩
  · intro h
    exact ⟨List.mem_of_find?_eq_some h, by simpa using List.find?_some h⟩
  · rintro ⟨ha, rfl⟩
    have found : (as.find? (key · == key a)).isSome = true := List.find?_isSome.mpr ⟨a, ha, beq_self_eq_true (key a)⟩
    obtain ⟨b, hb⟩ := Option.isSome_iff_exists.mp found
    have same : key b = key a := by simpa using List.find?_some hb
    rw [hb, List.inj_on_of_nodup_map nodup (List.mem_of_find?_eq_some hb) ha same]

theorem find?_key_perm (perm : bs.Perm as) (nodup : (as.map key).Nodup) (n : String) :
    bs.find? (key · == n) = as.find? (key · == n) := by
  apply Option.ext
  intro a
  rw [find?_key_iff nodup, find?_key_iff ((perm.map key).nodup_iff.mpr nodup), perm.mem_iff]

section

variable {β : Type} {r : α → β → Prop} {bs : List β}

theorem exists_left_of_forall₂ (h : List.Forall₂ r as bs) {b : β} (hb : b ∈ bs) : ∃ a ∈ as, r a b := by
  induction h with
  | nil => cases hb
  | @cons a c as bs hac _ ih =>
    rcases List.mem_cons.mp hb with rfl | hb
    · exact ⟨a, List.mem_cons_self, hac⟩
    · obtain ⟨a', ha', h⟩ := ih hb
      exact ⟨a', List.mem_cons_of_mem a ha', h⟩

theorem exists_right_of_forall₂ (h : List.Forall₂ r as bs) {a : α} (ha : a ∈ as) : ∃ b ∈ bs, r a b :=
  exists_left_of_forall₂ (r := fun b a => r a b) h.flip ha

theorem exists_forall₂ (h : ∀ a ∈ as, ∃ b, r a b) : ∃ bs, List.Forall₂ r as bs := by
  induction as with
  | nil => exact ⟨[], .nil⟩
  | cons a as ih =>
    obtain ⟨b, hb⟩ := h a List.mem_cons_self
    obtain ⟨bs, hbs⟩ := ih fun a' ha' => h a' (List.mem_cons_of_mem a ha')
    exact ⟨b :: bs, .cons hb hbs⟩

end

end TypeAtlas
