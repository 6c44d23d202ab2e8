import TypeAtlas.Proofs.Lists
import TypeAtlas.Proofs.Model.Registry
import TypeAtlas.Proofs.Runs

/-! A model under requests to add an entry or to freeze it, one after the other. What it holds can be told
from the requests alone: of each name the first addition, as far as it comes before any freezing. Nothing is
taken back, so what a model says of an entry it goes on to say. -/

namespace TypeAtlas

inductive Change
  | add (e : Entry)
  | addExternal (e : Entry)
  | freeze

namespace Change

def name? : Change → Option String
  | add e => some e.fullName
  | addExternal e => some e.fullName
  | freeze => none

def internal? : Change → Option Entry
  | add e => some e
  | _ => none

def external? : Change → Option Entry
  | addExternal e => some e
  | _ => none

def apply : Change → Model → Except Error Model
  | add e, m => m.add e
  | addExternal e, m => m.addExternal e
  | freeze, m => .ok m.freeze

/-- A request to the model at hand, which what it becomes takes the place of. -/
def request (c : Change) : ExceptT Error (StateM Model) Unit := do
  let m ← get
  set (← c.apply m)

/-- The additions before any freezing, of each name that is not known the first. -/
def firsts (known : List String) : List Change → List Change
  | [] => []
  | c :: cs =>
    match c.name? with
    | none => []
    | some n => if n ∈ known then firsts known cs else c :: firsts (n :: known) cs

end Change

namespace Model

/-- The model after a request, whatever becomes of it. -/
def next (m : Model) (c : Change) : Model := (c.request.run.run m).run.2

def after (m : Model) : List Change → Model
  | [] => m
  | c :: cs => (m.next c).after cs

def accepted (m : Model) : List Change → List Change
  | [] => []
  | c :: cs =>
    if (c.request.run.run m).run.1.isOk && c.name?.isSome then c :: (m.next c).accepted cs
    else (m.next c).accepted cs

def extend (m : Model) (c : Change) : Model :=
  { m with types := m.types ++ c.internal?.toList, externals := m.externals ++ c.external?.toList }

variable {m m' : Model} {c : Change} {cs : List Change} {e : Entry} {error : Error} {n : String}

/-! ### One request -/

theorem run_request (c : Change) (m : Model) :
    (c.request.run.run m).run = match c.apply m with
      | .ok m' => (.ok (), m')
      | .error e => (.error e, m) := by
  unfold Change.request
  cases h : c.apply m with
  | ok m' => exact gives_bind.mpr ⟨m, m, gives_get.mpr ⟨rfl, rfl⟩, gives_bind.mpr ⟨m', m, gives_except.mpr ⟨h, rfl⟩, rfl⟩⟩
  | error e =>
    refine fails_bind.mpr (.inr ⟨m, m, gives_get.mpr ⟨rfl, rfl⟩, ?_⟩)
    exact fails_bind.mpr (.inl (fails_except.mpr ⟨h, rfl⟩))

theorem apply_addition (h : c.name? = some n) : c.apply m = (m.checkAddable n).map fun _ => m.extend c := by
  cases c with
  | add e =>
    cases h
    rw [Change.apply, add]
    cases m.checkAddable e.fullName with
    | error _ => rfl
    | ok _ => simp [extend, Change.internal?, Change.external?, bind, Except.bind, Except.map]
  | addExternal e =>
    cases h
    rw [Change.apply, addExternal]
    cases m.checkAddable e.fullName with
    | error _ => rfl
    | ok _ => simp [extend, Change.internal?, Change.external?, bind, Except.bind, Except.map]
  | freeze => cases h

/-- An addition fails if the model is frozen, whatever it holds, and else if it holds the name. Where it
fails the model stays as it is. -/
theorem run_addition (h : c.name? = some n) :
    (c.request.run.run m).run =
      if m.isFrozen then (.error (.frozenModel n), m)
      else if m.contains n then (.error (.duplicateType n), m)
      else (.ok (), m.extend c) := by
  rw [run_request, apply_addition h, checkAddable]
  cases m.isFrozen with
  | true => rfl
  | false => cases m.contains n <;> rfl

theorem next_freeze (m : Model) : m.next .freeze = m.freeze := rfl

theorem accepted_freeze (m : Model) (cs : List Change) : m.accepted (.freeze :: cs) = m.freeze.accepted cs := rfl

theorem next_addition (h : c.name? = some n) :
    m.next c = if m.isFrozen || m.contains n then m else m.extend c := by
  rw [next, run_addition h]
  cases m.isFrozen with
  | true => rfl
  | false => cases m.contains n <;> rfl

theorem accepted_addition (h : c.name? = some n) :
    m.accepted (c :: cs) =
      if m.isFrozen || m.contains n then m.accepted cs else c :: (m.extend c).accepted cs := by
  rw [accepted, next_addition h, run_addition h, h]
  cases m.isFrozen with
  | true => rfl
  | false => cases m.contains n <;> rfl

theorem name?_eq_none : c.name? = none ↔ c = .freeze := by
  cases c <;> simp [Change.name?]

theorem contains_extend (h : c.name? = some n) (k : String) : (m.extend c).contains k = (m.contains k || n == k) := by
  cases c with
  | add e =>
    cases h
    simpa [extend, Change.internal?, Change.external?] using contains_append_type k
  | addExternal e =>
    cases h
    simpa [extend, Change.internal?, Change.external?] using contains_append_external k
  | freeze => cases h

/-! ### What is accepted -/

theorem accepted_of_frozen (h : m.isFrozen) (cs : List Change) : m.accepted cs = [] := by
  induction cs with
  | nil => rfl
  | cons c cs ih =>
    cases hc : c.name? with
    | some n => simp [accepted_addition hc, h, ih]
    | none =>
      have same : m.freeze = m := by rw [freeze, ← h]
      rw [name?_eq_none.mp hc, accepted_freeze, same, ih]

theorem accepted_eq_firsts {known : List String} (unfrozen : m.isFrozen = false)
    (holds : ∀ n, m.contains n = true ↔ n ∈ known) (cs : List Change) : m.accepted cs = Change.firsts known cs := by
  induction cs generalizing m known with
  | nil => rfl
  | cons c cs ih =>
    unfold Change.firsts
    cases hc : c.name? with
    | none => rw [name?_eq_none.mp hc, accepted_freeze, accepted_of_frozen rfl]
    | some n =>
      rw [accepted_addition hc, unfrozen, Bool.false_or]
      dsimp only
      by_cases hn : n ∈ known
      · rw [if_pos ((holds n).mpr hn), if_pos hn, ih unfrozen holds]
      · rw [if_neg (mt (holds n).mp hn), if_neg hn]
        congr 1
        refine ih (m := m.extend c) unfrozen fun k => ?_
        rw [contains_extend hc, Bool.or_eq_true, holds, beq_iff_eq, List.mem_cons, or_comm, eq_comm]

/-- What is accepted is added at the end of its list, in the order of the requests. -/
theorem after_eq (m : Model) (cs : List Change) :
    m.after cs =
      { m with
        types := m.types ++ (m.accepted cs).filterMap (·.internal?)
        externals := m.externals ++ (m.accepted cs).filterMap (·.external?)
        isFrozen := m.isFrozen || cs.any (·.name?.isNone) } := by
  induction cs generalizing m with
  | nil => simp [after, accepted]
  | cons c cs ih =>
    cases hc : c.name? with
    | none =>
      rw [name?_eq_none.mp hc, after, next_freeze, ih, accepted_freeze, accepted_of_frozen rfl]
      simp [freeze, Change.name?]
    | some n =>
      rw [after, next_addition hc, accepted_addition hc, List.any_cons, hc]
      by_cases refused : (m.isFrozen || m.contains n) = true
      · rw [if_pos refused, if_pos refused, ih]
        rfl
      · rw [if_neg refused, if_neg refused, ih]
        cases c <;> simp [extend, Change.internal?, Change.external?]

/-! ### One entry of a name -/

/-- The names of the entries, those of the project's own types first. -/
def names (m : Model) : List String := m.entries.map (·.fullName)

theorem names_eq_append (m : Model) : m.names = m.types.map (·.fullName) ++ m.externals.map (·.fullName) :=
  List.map_append

theorem contains_iff_mem_names : m.contains n = true ↔ n ∈ m.names := by
  rw [contains_eq_true, names_eq_append, List.mem_append]

theorem names_extend (h : c.name? = some n) : (m.extend c).names.Perm (n :: m.names) := by
  rw [names_eq_append, names_eq_append]
  cases c with
  | add e =>
    cases h
    simp [extend, Change.internal?, Change.external?]
  | addExternal e =>
    cases h
    simp [extend, Change.internal?, Change.external?, ← List.append_assoc]
  | freeze => cases h

theorem nodup_names_next (nodup : m.names.Nodup) (c : Change) : (m.next c).names.Nodup := by
  cases hc : c.name? with
  | none =>
    rw [name?_eq_none.mp hc]
    exact nodup
  | some n =>
    rw [next_addition hc]
    by_cases refused : (m.isFrozen || m.contains n) = true
    · rwa [if_pos refused]
    · rw [if_neg refused, (names_extend hc).nodup_iff, List.nodup_cons, ← contains_iff_mem_names]
      rw [Bool.or_eq_true, not_or] at refused
      exact ⟨refused.2, nodup⟩

theorem nodup_names_after (nodup : m.names.Nodup) (cs : List Change) : (m.after cs).names.Nodup := by
  induction cs generalizing m with
  | nil => exact nodup
  | cons c cs ih => exact ih (nodup_names_next nodup c)

theorem internal?_iff (nodup : m.names.Nodup) : m.internal? n = some e ↔ e ∈ m.types ∧ e.fullName = n := by
  rw [names_eq_append] at nodup
  exact find?_key_iff (List.nodup_append.mp nodup).1

theorem external?_iff (nodup : m.names.Nodup) : m.external? n = some e ↔ e ∈ m.externals ∧ e.fullName = n := by
  rw [names_eq_append] at nodup
  exact find?_key_iff (List.nodup_append.mp nodup).2.1

theorem get?_iff (nodup : m.names.Nodup) : m.get? n = some e ↔ e ∈ m.entries ∧ e.fullName = n := by
  rw [get?, internal?, external?, ← List.find?_append]
  exact find?_key_iff nodup

theorem isExternal_iff : m.isExternal n = true ↔ n ∈ m.externals.map (·.fullName) := by
  simp [isExternal]

theorem size_eq_length_names (m : Model) : m.size = m.names.length := by
  rw [names, List.length_map, entries, List.length_append, size]

theorem size_extend (h : c.name? = some n) : (m.extend c).size = m.size + 1 := by
  rw [size_eq_length_names, (names_extend h).length_eq, List.length_cons, ← size_eq_length_names]

theorem size_after (m : Model) (cs : List Change) : (m.after cs).size = m.size + (m.accepted cs).length := by
  induction cs generalizing m with
  | nil => rfl
  | cons c cs ih =>
    cases hc : c.name? with
    | none =>
      rw [name?_eq_none.mp hc, after, next_freeze, accepted_freeze, ih]
      rfl
    | some n =>
      rw [after, next_addition hc, accepted_addition hc]
      by_cases refused : (m.isFrozen || m.contains n) = true
      · rw [if_pos refused, if_pos refused, ih]
      · rw [if_neg refused, if_neg refused, ih, size_extend hc, List.length_cons]
        omega

/-! ### What stays -/

/-- What a model says of its entries, from then on. -/
structure Keeps (m k : Model) : Prop where
  internal : ∀ e ∈ m.types, k.get? e.fullName = some e ∧ k.contains e.fullName = true ∧ k.isExternal e.fullName = false
  external : ∀ e ∈ m.externals, k.get? e.fullName = some e ∧ k.contains e.fullName = true ∧ k.isExternal e.fullName = true
  frozen : m.isFrozen = true → k = m

theorem keeps_after (nodup : m.names.Nodup) (cs : List Change) : m.Keeps (m.after cs) := by
  have nodup' := nodup_names_after nodup cs
  have found : ∀ e ∈ (m.after cs).entries,
      (m.after cs).get? e.fullName = some e ∧ (m.after cs).contains e.fullName = true := by
    intro e he
    exact ⟨(get?_iff nodup').mpr ⟨he, rfl⟩, contains_iff_mem_names.mpr (List.mem_map_of_mem he)⟩
  have apart := nodup'
  rw [names_eq_append] at apart
  refine ⟨?_, ?_, ?_⟩
  · intro e he
    have mem : e ∈ (m.after cs).types := by
      rw [after_eq]
      exact List.mem_append_left _ he
    obtain ⟨got, held⟩ := found e (List.mem_append_left _ mem)
    refine ⟨got, held, ?_⟩
    rw [← Bool.not_eq_true, isExternal_iff]
    exact fun other => List.disjoint_of_nodup_append apart (List.mem_map_of_mem mem) other
  · intro e he
    have mem : e ∈ (m.after cs).externals := by
      rw [after_eq]
      exact List.mem_append_left _ he
    obtain ⟨got, held⟩ := found e (List.mem_append_right _ mem)
    exact ⟨got, held, isExternal_iff.mpr (List.mem_map_of_mem mem)⟩
  · intro frozen
    have additions := accepted_of_frozen frozen cs
    rcases m with ⟨project, types, externals, isFrozen⟩
    cases frozen
    rw [after_eq, additions]
    simp

/-! ### Every state of a registry -/

theorem contains_eq_isSome (m : Model) (n : String) :
    m.contains n = ((m.internal? n).isSome || (m.external? n).isSome) := by
  rw [Bool.eq_iff_iff, Bool.or_eq_true, internal?, external?, List.find?_isSome, List.find?_isSome]
  simp [contains]

/-- The state of a model that was new and had these requests. -/
structure Registered (project : String) (cs : List Change) (m : Model) : Prop where
  project_eq : m.project = project
  /-- The requests that succeeded are the first addition of each name before any freezing. -/
  accepted_eq : accepted { project := project } cs = Change.firsts [] cs
  size_eq : m.size = (accepted { project := project } cs).length
  types_eq : m.types = (Change.firsts [] cs).filterMap (·.internal?)
  externals_eq : m.externals = (Change.firsts [] cs).filterMap (·.external?)
  entries_eq : m.entries = (Change.firsts [] cs).filterMap (·.internal?) ++ (Change.firsts [] cs).filterMap (·.external?)
  isFrozen_iff : m.isFrozen = true ↔ Change.freeze ∈ cs
  /-- No name is there twice, neither in one of the lists nor in both. -/
  nodup : (m.types.map (·.fullName) ++ m.externals.map (·.fullName)).Nodup
  internal?_iff : ∀ n e, m.internal? n = some e ↔ e ∈ m.types ∧ e.fullName = n
  external?_iff : ∀ n e, m.external? n = some e ↔ e ∈ m.externals ∧ e.fullName = n
  get?_iff : ∀ n e, m.get? n = some e ↔ e ∈ m.entries ∧ e.fullName = n
  /-- How an addition ends, and what becomes of the model: where it fails, nothing. -/
  addition : ∀ (c : Change) (n : String), c.name? = some n → (c.request.run.run m).run =
    if m.isFrozen then (.error (.frozenModel n), m)
    else if (m.internal? n).isSome || (m.external? n).isSome then (.error (.duplicateType n), m)
    else (.ok (), m.extend c)
  freezing : (Change.freeze.request.run.run m).run = (.ok (), { m with isFrozen := true })
  keeps : ∀ later, m.Keeps (m.after later)

theorem registered_after (project : String) (cs : List Change) :
    Registered project cs (after { project := project } cs) := by
  have firsts : accepted { project := project } cs = Change.firsts [] cs := accepted_eq_firsts rfl (by simp [contains]) cs
  have empty : (Model.names { project := project }).Nodup := List.nodup_nil
  have nodup := nodup_names_after empty cs
  constructor
  case project_eq => rw [after_eq]
  case accepted_eq => exact firsts
  case size_eq =>
    rw [size_after]
    exact Nat.zero_add _
  case types_eq =>
    rw [after_eq, firsts]
    rfl
  case externals_eq =>
    rw [after_eq, firsts]
    rfl
  case entries_eq =>
    rw [after_eq, firsts]
    rfl
  case isFrozen_iff =>
    rw [after_eq]
    simp [name?_eq_none]
  case nodup => rwa [← names_eq_append]
  case internal?_iff => exact fun n e => Model.internal?_iff nodup
  case external?_iff => exact fun n e => Model.external?_iff nodup
  case get?_iff => exact fun n e => Model.get?_iff nodup
  case addition =>
    intro c n hc
    rw [← contains_eq_isSome]
    exact run_addition hc
  case freezing => rfl
  case keeps => exact keeps_after nodup

end Model
end TypeAtlas
