import TypeAtlas.Proofs.Runs
import TypeAtlas.Warning
import Mathlib.Data.List.Forall2

/-! Both ends of work that may fail. `Ends good bad x` says that `x` has a value for which `good` holds or
an error for which `bad` holds; work with a state `Settles` that way if it does from every state. There
is one rule for each way to put work together. -/

namespace TypeAtlas

variable {ε α β σ : Type}

def Ends (good : α → Prop) (bad : ε → Prop) : Except ε α → Prop
  | .ok a => good a
  | .error e => bad e

namespace Ends

variable {good good' : α → Prop} {bad : ε → Prop} {x : Except ε α}

theorem mono (h : Ends good bad x) (hg : ∀ a, good a → good' a) : Ends good' bad x := by
  cases x with
  | ok a => exact hg a h
  | error e => exact h

theorem imp {bad' : ε → Prop} (h : Ends good bad x) (hg : ∀ a, good a → good' a) (hb : ∀ e, bad e → bad' e) :
    Ends good' bad' x := by
  cases x with
  | ok a => exact hg a h
  | error e => exact hb e h

theorem bind {f : α → Except ε β} {goal : β → Prop} (h : Ends good bad x) (hf : ∀ a, good a → Ends goal bad (f a)) :
    Ends goal bad (x >>= f) := by
  cases x with
  | ok a => exact hf a h
  | error e => exact h

theorem mapM {f : α → Except ε β} {goods : α → β → Prop} (as : List α) (h : ∀ a ∈ as, Ends (goods a) bad (f a)) :
    Ends (List.Forall₂ goods as) bad (as.mapM f) := by
  induction as with
  | nil => exact .nil
  | cons a as ih =>
    rw [List.mapM_cons]
    refine (h a List.mem_cons_self).bind fun b hb => ?_
    exact (ih fun c hc => h c (List.mem_cons_of_mem a hc)).bind fun bs hbs => .cons hb hbs

end Ends

def Settles (good : α → Prop) (bad : Error → Prop) (x : ExceptT Error (StateM σ) α) : Prop :=
  ∀ s, Ends good bad (x.run.run s).run.1

namespace Settles

variable {good : α → Prop} {bad : Error → Prop}

theorem of_pure {a : α} (h : good a) : Settles good bad (pure a : ExceptT Error (StateM σ) α) := fun _ => h

theorem of_except {x : Except Error α} (h : Ends good bad x) :
    Settles good bad (liftM x : ExceptT Error (StateM σ) α) := fun _ => h

theorem of_warn (w : Warning) : Settles (fun _ => True) bad (warn w) := fun _ => trivial

theorem mono {good' : α → Prop} {x : ExceptT Error (StateM σ) α} (h : Settles good bad x)
    (hg : ∀ a, good a → good' a) : Settles good' bad x := fun s => (h s).mono hg

theorem bind {x : ExceptT Error (StateM σ) α} {f : α → ExceptT Error (StateM σ) β} {goal : β → Prop}
    (h : Settles good bad x) (hf : ∀ a, good a → Settles goal bad (f a)) : Settles goal bad (x >>= f) := by
  intro s
  have hs := h s
  simp only [ExceptT.run_bind, StateT.run_bind, Id.run_bind]
  rcases hx : (x.run.run s).run with ⟨r, s₁⟩
  rw [hx] at hs
  cases r with
  | ok a => exact hf a hs s₁
  | error e => exact hs

theorem of_throw {e : Error} (h : bad e) : Settles good bad (throw e : ExceptT Error (StateM σ) α) := fun _ => h

/-- What comes after a failure does not matter. -/
theorem of_throw_bind {e : Error} (h : bad e) {f : α → ExceptT Error (StateM σ) β} {goal : β → Prop} :
    Settles goal bad ((throw e : ExceptT Error (StateM σ) α) >>= f) := fun _ => h

theorem of_modify (f : σ → σ) : Settles (fun _ => True) bad (modify f : ExceptT Error (StateM σ) Unit) := fun _ => trivial

theorem of_lift {x : StateM σ α} (h : ∀ s, good (x.run s).run.1) : Settles good bad (ExceptT.lift x) := h

theorem mapM {f : α → ExceptT Error (StateM σ) β} (hf : ∀ a, Settles (fun _ => True) bad (f a)) (as : List α) :
    Settles (fun _ => True) bad (as.mapM f) := by
  induction as with
  | nil => exact of_pure trivial
  | cons a as ih =>
    rw [List.mapM_cons]
    exact (hf a).bind fun _ _ => ih.bind fun _ _ => of_pure trivial

theorem option_mapM {f : α → ExceptT Error (StateM σ) β} (hf : ∀ a, Settles (fun _ => True) bad (f a)) (a : Option α) :
    Settles (fun _ => True) bad (a.mapM f) := by
  cases a with
  | none => exact of_pure trivial
  | some a =>
    rw [Option.mapM_some, map_eq_pure_bind]
    exact (hf a).bind fun _ _ => of_pure trivial

theorem bad_of_fails {x : ExceptT Error (StateM σ) α} {s s' : σ} {e : Error} (h : Settles good bad x)
    (hf : Fails x s e s') : bad e := by
  have hs := h s
  rw [show (x.run.run s).run = (.error e, s') from hf] at hs
  exact hs

end Settles
end TypeAtlas
