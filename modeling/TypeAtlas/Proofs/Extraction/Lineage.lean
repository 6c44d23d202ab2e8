import Mathlib
import TypeAtlas.Proofs.Extraction.Runs

/-! Where the walk over the superclasses of a declaration ends, told by the chain that they form. One step
of the walk settles the question or goes on to the next declaration of the chain, so the walk is settled
within its limit or has climbed as many links as the limit allows. -/

namespace TypeAtlas

open Extraction

namespace Classifier

variable (c : Classifier) {d e : Declaration} {s : Session} {n i j : Nat}

/-- The qualified name of the superclass in the scope of the declaration; `none` if there is no superclass
or its name cannot be read. -/
def superName (d : Declaration) : Option String :=
  d.superclass.bind fun w => (Resolution.qualifiedName (c.provider.context d) w).toOption

def ancestor (d : Declaration) : (i : Nat) → Option Declaration
  | 0 => some d
  | i + 1 => ((ancestor d i).bind c.superName).bind c.provider.find?

def superNameAt (d : Declaration) (i : Nat) : Option String := (c.ancestor d i).bind c.superName

def AvoidsRoot (d : Declaration) (n : Nat) : Prop := ∀ i < n, c.superNameAt d i ≠ some c.settings.exceptionRoot

theorem ancestor_add (d : Declaration) (i j : Nat) : c.ancestor d (i + j) = (c.ancestor d i).bind (c.ancestor · j) := by
  induction j with
  | zero => exact (Option.bind_fun_some _).symm
  | succ j ih =>
    rw [← Nat.add_assoc, ancestor, ih]
    cases c.ancestor d i <;> rfl

theorem ancestor_succ (d : Declaration) (i : Nat) :
    c.ancestor d (i + 1) = ((c.superName d).bind c.provider.find?).bind (c.ancestor · i) := by
  rw [Nat.add_comm, ancestor_add]
  rfl

theorem superNameAt_succ {d' : Declaration} (h : (c.superName d).bind c.provider.find? = some d') (i : Nat) :
    c.superNameAt d (i + 1) = c.superNameAt d' i := by
  rw [superNameAt, ancestor_succ, h]
  rfl

/-! ### One step -/

/-- One step of the walk settles the question or leads to the declaration to go on from. -/
def step (d : Declaration) : Except Error Bool ⊕ Declaration :=
  match d.superclass with
  | none => .inl (.ok false)
  | some w =>
    match Resolution.qualifiedName (c.provider.context d) w with
    | .error error => .inl (.error error)
    | .ok name =>
      if name = c.settings.exceptionRoot then .inl (.ok true)
      else
        match c.provider.find? name with
        | none => .inl (.ok false)
        | some d' => .inr d'

/-- The five ways a step can go. -/
theorem step_cases (d : Declaration) :
    (d.superclass = none ∧ c.superName d = none ∧ c.step d = .inl (.ok false)) ∨
    (∃ w error, d.superclass = some w ∧ Resolution.qualifiedName (c.provider.context d) w = .error error ∧
      c.superName d = none ∧ c.step d = .inl (.error error)) ∨
    ∃ w name, d.superclass = some w ∧ Resolution.qualifiedName (c.provider.context d) w = .ok name ∧
      c.superName d = some name ∧
      ((name = c.settings.exceptionRoot ∧ c.step d = .inl (.ok true)) ∨
        name ≠ c.settings.exceptionRoot ∧
          ((c.provider.find? name = none ∧ c.step d = .inl (.ok false)) ∨
            ∃ d', c.provider.find? name = some d' ∧ c.step d = .inr d')) := by
  unfold step superName
  rcases d.superclass with - | w
  · exact .inl ⟨rfl, rfl, rfl⟩
  · rcases h : Resolution.qualifiedName (c.provider.context d) w with error | name
    · exact .inr (.inl ⟨w, error, rfl, h, by rw [Option.bind_some, h]; rfl, by simp only [h]⟩)
    · refine .inr (.inr ⟨w, name, rfl, h, by rw [Option.bind_some, h]; rfl, ?_⟩)
      by_cases root : name = c.settings.exceptionRoot
      · exact .inl ⟨root, by simp only [h, if_pos root]⟩
      · rcases hf : c.provider.find? name with - | d'
        · exact .inr ⟨root, .inl ⟨rfl, by simp only [h, if_neg root, hf]⟩⟩
        · exact .inr ⟨root, .inr ⟨d', rfl, by simp only [h, if_neg root, hf]⟩⟩

theorem step_eq_next {d' : Declaration} :
    c.step d = .inr d' ↔
      c.superName d ≠ some c.settings.exceptionRoot ∧ (c.superName d).bind c.provider.find? = some d' := by
  rcases c.step_cases d with ⟨-, hn, hs⟩ | ⟨w, error, -, -, hn, hs⟩ |
    ⟨w, name, -, -, hn, ⟨root, hs⟩ | ⟨ne, ⟨hf, hs⟩ | ⟨d₁, hf, hs⟩⟩⟩ <;> simp [*]

theorem step_eq_true : c.step d = .inl (.ok true) ↔ c.superName d = some c.settings.exceptionRoot := by
  rcases c.step_cases d with ⟨-, hn, hs⟩ | ⟨w, error, -, -, hn, hs⟩ |
    ⟨w, name, -, -, hn, ⟨root, hs⟩ | ⟨ne, ⟨hf, hs⟩ | ⟨d₁, hf, hs⟩⟩⟩ <;> simp [*]

/-- The walk ends at a declaration without superclass and at one whose superclass is unknown. -/
def EndsAt (d : Declaration) : Prop :=
  d.superclass = none ∨
    ∃ name, c.superName d = some name ∧ name ≠ c.settings.exceptionRoot ∧ c.provider.find? name = none

theorem step_eq_false : c.step d = .inl (.ok false) ↔ c.EndsAt d := by
  unfold EndsAt
  rcases c.step_cases d with ⟨hw, hn, hs⟩ | ⟨w, error, hw, -, hn, hs⟩ |
    ⟨w, name, hw, -, hn, ⟨root, hs⟩ | ⟨ne, ⟨hf, hs⟩ | ⟨d₁, hf, hs⟩⟩⟩ <;> simp [*]

theorem step_eq_error {error : Error} :
    c.step d = .inl (.error error) ↔
      ∃ w, d.superclass = some w ∧ Resolution.qualifiedName (c.provider.context d) w = .error error := by
  rcases c.step_cases d with ⟨hw, hn, hs⟩ | ⟨w, error, hw, hq, hn, hs⟩ |
    ⟨w, name, hw, hq, hn, ⟨root, hs⟩ | ⟨ne, ⟨hf, hs⟩ | ⟨d₁, hf, hs⟩⟩⟩ <;> simp [*]

/-- A walk with a step left takes it. Names are looked up, but none is noted. -/
theorem run_lineage_succ (n : Nat) (d : Declaration) (s : Session) :
    ∃ s₁, s₁.referenced = s.referenced ∧
      ((c.lineage (n + 1) d).run.run s).run =
        match c.step d with
        | .inl result => (result.map some, s₁)
        | .inr d' => ((c.lineage n d').run.run s₁).run := by
  unfold step
  rw [lineage]
  rcases d.superclass with - | w
  · exact ⟨s, rfl, rfl⟩
  · dsimp only
    rcases Resolution.qualifiedName (c.provider.context d) w with error | name
    · exact ⟨s, rfl, rfl⟩
    · change ∃ s₁, _ ∧ ((if name = _ then _ else _ : Extraction (Option Bool)).run.run s).run = _
      by_cases root : name = c.settings.exceptionRoot
      · rw [if_pos root]
        exact ⟨s, rfl, by simp only [if_pos root]; rfl⟩
      · rw [if_neg root]
        refine ⟨s.ask (.find name), rfl, ?_⟩
        simp only [if_neg root]
        change ((match c.provider.find? name with
          | none => _
          | some d' => _ : Extraction (Option Bool)).run.run _).run = _
        rcases c.provider.find? name with - | d' <;> rfl

/-! ### The whole walk -/

/-- `e` is the declaration `i` links above `d`, and the walk gets there without meeting the exception root. -/
def Climbs (d : Declaration) (i : Nat) (e : Declaration) : Prop := c.ancestor d i = some e ∧ c.AvoidsRoot d i

theorem climbs_zero : c.Climbs d 0 e ↔ d = e := by
  refine ⟨fun h => Option.some.inj h.1, ?_⟩
  rintro rfl
  exact ⟨rfl, nofun⟩

theorem climbs_succ : c.Climbs d (i + 1) e ↔ ∃ d', c.step d = .inr d' ∧ c.Climbs d' i e := by
  unfold Climbs AvoidsRoot
  rw [Nat.forall_lt_succ_left]
  refine ⟨?_, ?_⟩
  · rintro ⟨he, avoids, above⟩
    rw [ancestor_succ] at he
    obtain ⟨d', hd', he⟩ := Option.bind_eq_some_iff.mp he
    refine ⟨d', c.step_eq_next.mpr ⟨avoids, hd'⟩, he, fun j hj => ?_⟩
    rw [← c.superNameAt_succ hd']
    exact above j hj
  · rintro ⟨d', hs, he, above⟩
    obtain ⟨avoids, hd'⟩ := c.step_eq_next.mp hs
    refine ⟨?_, avoids, fun j hj => ?_⟩
    · rw [ancestor_succ, hd']
      exact he
    · rw [c.superNameAt_succ hd']
      exact above j hj

/-- The walk is settled just as by the step that settles it, which comes within the limit. -/
theorem lineage_eq_settled {result : Except Error Bool} :
    ((c.lineage n d).run.run s).run.1 = result.map some ↔
      ∃ i < n, ∃ e, c.Climbs d i e ∧ c.step e = .inl result := by
  induction n generalizing d s with
  | zero => cases result <;> exact iff_of_false nofun nofun
  | succ n ih =>
    obtain ⟨s₁, -, hr⟩ := c.run_lineage_succ n d s
    rw [hr, Nat.exists_lt_succ_left]
    simp only [climbs_zero, climbs_succ, exists_eq_left']
    rcases hs : c.step d with result' | d'
    · simp only [Sum.inl.injEq, reduceCtorEq, false_and, exists_false, and_false, or_false]
      refine ⟨fun h => ?_, fun h => by rw [h]⟩
      cases result' <;> cases result <;> cases h <;> rfl
    · simp [ih]

/-- The walk is left open when the limit is used up. -/
theorem lineage_eq_open :
    ((c.lineage n d).run.run s).run.1 = .ok none ↔ ∃ e, c.Climbs d n e := by
  induction n generalizing d s with
  | zero => exact iff_of_true rfl ⟨d, c.climbs_zero.mpr rfl⟩
  | succ n ih =>
    obtain ⟨s₁, -, hr⟩ := c.run_lineage_succ n d s
    rw [hr]
    simp only [climbs_succ]
    rcases c.step d with (error | found) | d'
    · simp [Except.map]
    · simp [Except.map]
    · simp [ih]

theorem referenced_lineage (n : Nat) (d : Declaration) (s : Session) :
    ((c.lineage n d).run.run s).run.2.referenced = s.referenced := by
  induction n generalizing d s with
  | zero => rfl
  | succ n ih =>
    obtain ⟨s₁, hs, hr⟩ := c.run_lineage_succ n d s
    rw [hr, ← hs]
    rcases c.step d with result | d'
    · rfl
    · exact ih d' s₁

/-- What becomes of the question when the walk is over. -/
theorem run_isThrowable (d : Declaration) (s : Session) :
    ((c.isThrowable d).run.run s).run =
      (((c.lineage c.settings.maxDepth d).run.run s).run.1.bind fun
        | some found => .ok found
        | none => .error (.longLineage d.name c.settings.maxDepth d.superclass),
      ((c.lineage c.settings.maxDepth d).run.run s).run.2) := by
  unfold isThrowable
  rw [ExceptT.run_bind, StateT.run_bind, Id.run_bind]
  rcases ((c.lineage c.settings.maxDepth d).run.run s).run with ⟨error | found | found, s'⟩ <;> rfl

theorem exists_gives_isThrowable {found : Bool} :
    (∃ s', Gives (c.isThrowable d) s found s') ↔
      ∃ i < c.settings.maxDepth, ∃ e, c.Climbs d i e ∧ c.step e = .inl (.ok found) := by
  rw [← c.lineage_eq_settled (s := s)]
  unfold Gives
  rw [run_isThrowable]
  rcases ((c.lineage c.settings.maxDepth d).run.run s).run with ⟨error | result | result, s'⟩ <;>
    simp [Except.bind, Except.map]

theorem exists_fails_isThrowable {error : Error} :
    (∃ s', Fails (c.isThrowable d) s error s') ↔
      (error = .longLineage d.name c.settings.maxDepth d.superclass ∧ ∃ e, c.Climbs d c.settings.maxDepth e) ∨
      ∃ i < c.settings.maxDepth, ∃ e, c.Climbs d i e ∧ c.step e = .inl (.error error) := by
  rw [← c.lineage_eq_settled (s := s), ← c.lineage_eq_open (s := s)]
  unfold Fails
  rw [run_isThrowable]
  rcases ((c.lineage c.settings.maxDepth d).run.run s).run with ⟨error | result | result, s'⟩ <;>
    simp [Except.bind, Except.map, eq_comm]

/-- A chain that comes back to a declaration without meeting the exception root goes on for ever. -/
theorem climbs_of_cycle (hij : i < j) (hi : c.ancestor d i = some e) (hj : c.ancestor d j = some e)
    (avoids : c.AvoidsRoot d j) (n : Nat) : ∃ e', c.Climbs d n e' := by
  -- every declaration of the chain is one of the first `j`, as the part after the cycle repeats it
  have early (n : Nat) : ∃ k < j, c.ancestor d n = c.ancestor d k := by
    induction n using Nat.strongRecOn with
    | ind n ih =>
      by_cases hn : n < j
      · exact ⟨n, hn, rfl⟩
      · obtain ⟨k, hk, heq⟩ := ih (i + (n - j)) (by omega)
        refine ⟨k, hk, heq ▸ ?_⟩
        rw [ancestor_add, hi, ← hj, ← ancestor_add, Nat.add_sub_cancel' (Nat.le_of_not_lt hn)]
  have known (k : Nat) (hk : k ≤ j) : ∃ e', c.ancestor d k = some e' := by
    rw [← Nat.add_sub_cancel' hk, ancestor_add] at hj
    obtain ⟨e', he', -⟩ := Option.bind_eq_some_iff.mp hj
    exact ⟨e', he'⟩
  obtain ⟨k, hk, heq⟩ := early n
  obtain ⟨e', he'⟩ := known k (Nat.le_of_lt hk)
  refine ⟨e', heq.trans he', fun m _ => ?_⟩
  obtain ⟨k, hk, heq⟩ := early m
  rw [superNameAt, heq]
  exact avoids k hk

/-- The superclass names of the first `n` declarations of the chain can be read. -/
def Readable (d : Declaration) (n : Nat) : Prop :=
  ∀ i < n, ∀ e w, c.ancestor d i = some e → e.superclass = some w →
    ∃ name, Resolution.qualifiedName (c.provider.context e) w = .ok name

/-- A declaration is throwable exactly if the exception root is among the superclass names of its chain, as
far as the limit goes; it is not if the chain ends before. The walk fails if the chain goes on beyond the
limit without the root, as every cycle without the root does, and of nothing else but a superclass name that
cannot be read. No reference is noted. -/
theorem isThrowable_exact (c : Classifier) (d : Declaration) (s : Session) :
    ((∃ s', Gives (c.isThrowable d) s true s') ↔
      ∃ i < c.settings.maxDepth, c.AvoidsRoot d i ∧ c.superNameAt d i = some c.settings.exceptionRoot) ∧
    ((∃ s', Gives (c.isThrowable d) s false s') ↔
      ∃ i < c.settings.maxDepth, c.AvoidsRoot d i ∧ ∃ e, c.ancestor d i = some e ∧ c.EndsAt e) ∧
    (∀ error, (∃ s', Fails (c.isThrowable d) s error s') ↔
      (error = .longLineage d.name c.settings.maxDepth d.superclass ∧
        (c.ancestor d c.settings.maxDepth).isSome ∧ c.AvoidsRoot d c.settings.maxDepth) ∨
      ∃ i < c.settings.maxDepth, c.AvoidsRoot d i ∧ ∃ e w, c.ancestor d i = some e ∧ e.superclass = some w ∧
        Resolution.qualifiedName (c.provider.context e) w = .error error) ∧
    (c.Readable d c.settings.maxDepth →
      ((∃ error s', Fails (c.isThrowable d) s error s') ↔
        (c.ancestor d c.settings.maxDepth).isSome ∧ c.AvoidsRoot d c.settings.maxDepth)) ∧
    (∀ i j e, i < j → c.ancestor d i = some e → c.ancestor d j = some e → c.AvoidsRoot d j →
      ∃ s', Fails (c.isThrowable d) s (.longLineage d.name c.settings.maxDepth d.superclass) s') ∧
    ((c.isThrowable d).run.run s).run.2.referenced = s.referenced := by
  have fails (error : Error) : (∃ s', Fails (c.isThrowable d) s error s') ↔
      (error = .longLineage d.name c.settings.maxDepth d.superclass ∧
        (c.ancestor d c.settings.maxDepth).isSome ∧ c.AvoidsRoot d c.settings.maxDepth) ∨
      ∃ i < c.settings.maxDepth, c.AvoidsRoot d i ∧ ∃ e w, c.ancestor d i = some e ∧ e.superclass = some w ∧
        Resolution.qualifiedName (c.provider.context e) w = .error error := by
    rw [exists_fails_isThrowable]
    simp only [step_eq_error, Climbs, Option.isSome_iff_exists]
    grind
  refine ⟨?_, ?_, fails, fun readable => ⟨?_, ?_⟩, ?_, ?_⟩
  · rw [exists_gives_isThrowable]
    simp only [step_eq_true, Climbs, superNameAt, Option.bind_eq_some_iff]
    grind
  · rw [exists_gives_isThrowable]
    simp only [step_eq_false, Climbs]
    grind
  · rintro ⟨error, h⟩
    rcases (fails error).mp h with ⟨-, long⟩ | ⟨i, hi, -, e, w, he, hw, unreadable⟩
    · exact long
    · obtain ⟨name, hn⟩ := readable i hi e w he hw
      exact absurd (hn.symm.trans unreadable) nofun
  · exact fun long => ⟨_, (fails _).mpr (.inl ⟨rfl, long⟩)⟩
  · intro i j e hij hi hj avoids
    exact c.exists_fails_isThrowable.mpr (.inl ⟨rfl, c.climbs_of_cycle hij hi hj avoids _⟩)
  · rw [run_isThrowable]
    exact c.referenced_lineage _ d s

def mutualClasses : List Declaration :=
  [{ name := "p.First", superclass := some "QSecond;", scope := some (.names [("Second", "p.Second")]) },
    { name := "p.Second", superclass := some "QFirst;", scope := some (.names [("First", "p.First")]) }]

/-- The walk from a class on a cycle fails at the limit. -/
theorem isThrowable_mutual :
    ∃ c : Classifier, ∃ d s', c.settings.maxDepth = 4 ∧ c.provider.find? "p.First" = some d ∧
      Fails (c.isThrowable d) {} (.longLineage "p.First" 4 (some "QSecond;")) s' := by
  let c := ofSettings (.ofIndex "cycle" mutualClasses (Index.ofList mutualClasses)) { maxDepth := 4 }
  let d : Declaration :=
    { name := "p.First", superclass := some "QSecond;", scope := some (.names [("Second", "p.Second")]) }
  have avoids : c.AvoidsRoot d 2 := by
    rintro (_ | _ | i) hi
    · cbv
      decide
    · cbv
      decide
    · omega
  obtain ⟨s', h⟩ := (isThrowable_exact c d {}).2.2.2.2.1 0 2 d (by decide) rfl (by cbv) avoids
  exact ⟨c, d, s', rfl, rfl, h⟩

end Classifier
end TypeAtlas
