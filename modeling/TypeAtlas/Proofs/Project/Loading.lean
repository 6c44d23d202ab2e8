import TypeAtlas.Proofs.Project.Catalogue
import TypeAtlas.Proofs.Project.Listing

/-! The declarations of a project that has been read: each was opened in one of its files. -/

namespace TypeAtlas

open Syntax

variable {s s' : List Warning} {ds : List Declaration}

theorem outcome_eq_ok {α : Type} {x : Warned α} {a : α} : x.outcome.1 = .ok a ↔ ∃ s, Gives x [] a s := by
  have run : x.outcome.1 = (x.run.run []).run.1 := rfl
  unfold Gives
  rw [run]
  rcases (x.run.run []).run with ⟨r, s⟩
  simp

namespace Sources

def OpenedSomewhere (d : Declaration) : Prop := ∃ f : ParsedFile, Opened (unitOf f.root) d

theorem opened_of_mem_declarations {parser : Parser} {root : Path} {readings : List (Reading parser root)}
    {d : Declaration} (h : d ∈ declarations readings) : OpenedSomewhere d := by
  obtain ⟨r, -, hd⟩ := List.mem_flatMap.mp h
  obtain ⟨s, s', read⟩ := r.read
  exact ⟨r.file, opened_of_mem_read read d hd⟩

end Sources

namespace Project

open Sources

theorem mem_of_mem_keepFirst {kept ds ds' : List Declaration} (h : Gives (keepFirst kept ds) s ds' s') :
    ∀ d ∈ ds', d ∈ kept ∨ d ∈ ds := by
  induction ds generalizing kept s with
  | nil =>
    rw [keepFirst, gives_pure] at h
    obtain ⟨rfl, -⟩ := h
    exact fun d hd => .inl hd
  | cons d ds ih =>
    unfold keepFirst at h
    split at h
    · obtain ⟨_, s₁, -, h⟩ := gives_bind.mp h
      exact fun e he => (ih h e he).imp_right (List.mem_cons_of_mem d)
    · intro e he
      rcases ih h e he with he | he
      · rcases List.mem_append.mp he with he | he
        · exact .inl he
        · exact .inr (List.mem_singleton.mp he ▸ List.mem_cons_self)
      · exact .inr (List.mem_cons_of_mem d he)

theorem opened_of_load {p : Project} {fs : Files} {c : Catalogue} (h : (p.load fs).outcome.1 = .ok c)
    {d : Declaration} (hd : d ∈ c.types ∨ d ∈ c.libraryTypes) : OpenedSomewhere d := by
  obtain ⟨s, h⟩ := outcome_eq_ok.mp h
  unfold load at h
  obtain ⟨libraryTypes, s₁, hl, h⟩ := gives_bind.mp h
  obtain ⟨sources, s₂, hs, h⟩ := gives_bind.mp h
  obtain ⟨types, s₃, ht, h⟩ := gives_bind.mp h
  obtain ⟨rfl, -⟩ := gives_pure.mp h
  rcases hd with hd | hd
  · rcases mem_of_mem_keepFirst ht d hd with hd | hd
    · exact absurd hd List.not_mem_nil
    · obtain ⟨readings, -, rfl⟩ := listing_of_read hs
      exact opened_of_mem_declarations hd
  · obtain ⟨directories, -, -, rfl⟩ := listings_of_readAll hl
    obtain ⟨directory, -, hd⟩ := List.mem_flatMap.mp hd
    exact opened_of_mem_declarations hd

end Project
end TypeAtlas
