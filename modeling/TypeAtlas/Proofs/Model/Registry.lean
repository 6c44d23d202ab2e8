import TypeAtlas.Model.Registry

/-! Additions to a model: a new name goes to the end of its list, and nothing else changes. -/

namespace TypeAtlas
namespace Model

variable {m m' : Model} {e : Entry}

theorem checkAddable_eq_ok {name : String} {u : Unit} :
    m.checkAddable name = .ok u ↔ m.isFrozen = false ∧ m.contains name = false := by
  unfold checkAddable
  cases m.isFrozen with
  | true => simp
  | false => cases m.contains name <;> simp

theorem add_eq_ok :
    m.add e = .ok m' ↔
      m.isFrozen = false ∧ m.contains e.fullName = false ∧ m' = { m with types := m.types ++ [e] } := by
  unfold add
  rw [← and_assoc, ← checkAddable_eq_ok (u := ())]
  cases m.checkAddable e.fullName with
  | error _ => simp [bind, Except.bind]
  | ok _ => simp [bind, Except.bind, eq_comm]

theorem addExternal_eq_ok :
    m.addExternal e = .ok m' ↔
      m.isFrozen = false ∧ m.contains e.fullName = false ∧
        m' = { m with externals := m.externals ++ [e] } := by
  unfold addExternal
  rw [← and_assoc, ← checkAddable_eq_ok (u := ())]
  cases m.checkAddable e.fullName with
  | error _ => simp [bind, Except.bind]
  | ok _ => simp [bind, Except.bind, eq_comm]

theorem contains_eq_true {name : String} :
    m.contains name = true ↔ name ∈ m.types.map (·.fullName) ∨ name ∈ m.externals.map (·.fullName) := by
  simp [contains]

theorem contains_append_type (name : String) :
    Model.contains { m with types := m.types ++ [e] } name = (m.contains name || e.fullName == name) := by
  simp [contains, Bool.or_assoc, Bool.or_comm]

theorem contains_append_external (name : String) :
    Model.contains { m with externals := m.externals ++ [e] } name =
      (m.contains name || e.fullName == name) := by
  simp [contains, Bool.or_assoc]

end Model
end TypeAtlas
