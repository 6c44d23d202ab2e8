import TypeAtlas.Proofs.Project.Filling
import TypeAtlas.Proofs.Project.Supertypes

/-! Requests to a project one after the other, over files that may change in between. A request whose reading
fails leaves no trace, so the next one finds the project as new; after a reading that succeeds nothing is
read and nothing changes any more. -/

namespace TypeAtlas

namespace Project

open Syntax

inductive Question
  | types
  | find (name : String)
  | extract (settings : Settings)

inductive Answer
  | types (ds : List Declaration)
  | declaration (d : Option Declaration)
  | model (m : Model)

/-- A question with the files as they are when it is asked. -/
structure Call where
  question : Question
  files : Files

def Request.map {α β : Type} (f : α → β) (r : Request α) : Request β := fun s =>
  let ((result, warnings), s) := r s
  ((result.map f, warnings), s)

def Call.request (p : Project) (c : Call) : Request Answer :=
  match c.question with
  | .types => Request.map .types (p.types c.files)
  | .find name => Request.map .declaration (p.find c.files name)
  | .extract settings => Request.map .model (p.extract c.files settings)

def after (p : Project) (s : State) : List Call → State
  | [] => s
  | c :: cs => p.after (c.request p s).2 cs

/-- Whether a question is answered from the tables. That is not so for the model of a missing project. -/
def Question.looksUp (p : Project) (fs : Files) : Question → Bool
  | .extract _ => p.isPresent fs
  | _ => true

def Question.answer (p : Project) (fs : Files) : Question → State → Except Error Answer
  | .types, s => .ok (.types s.types.declarations)
  | .find name, s => .ok (.declaration (s.index.find? name))
  | .extract settings, s => (Extraction.result settings (some (s.provider p fs))).map .model

/-- How the reading ends that a call begins with, if it comes to that. -/
def Call.load (p : Project) (c : Call) (s : State) : Option (Except Error Unit) :=
  if c.question.looksUp p c.files then some ((p.fill c.files).perform s).1.1 else none

variable {p : Project} {fs fs' : Files} {s s' : State} {c : Call} {q : Question} {warnings : List Warning} {e : Error}

theorem Request.map_eq {α β : Type} {r : Request α} {a : Except Error α} (f : α → β) (h : r s = ((a, warnings), s')) :
    Request.map f r s = ((a.map f, warnings), s') := by
  unfold Request.map
  rw [h]

theorem extract_of_present {settings : Settings} (h : p.isPresent fs) : p.extract fs settings s =
    p.ask fs (fun s => Extraction.result settings (some (s.provider p fs))) s := if_pos h

theorem extract_of_missing {settings : Settings} (h : ¬ p.isPresent fs) :
    p.extract fs settings s = ((.error (.missingProject p.name), []), s) := if_neg h

theorem request_of_gives (looksUp : c.question.looksUp p c.files)
    (h : Gives (p.fill c.files) (s, []) () (s', warnings)) :
    c.request p s = ((c.question.answer p c.files s', warnings.reverse), s') := by
  rcases c with ⟨question, files⟩
  cases question with
  | types => exact Request.map_eq _ (ask_of_gives h)
  | find name => exact Request.map_eq _ (ask_of_gives h)
  | extract settings => exact Request.map_eq _ ((extract_of_present looksUp).trans (ask_of_gives h))

theorem request_of_fails (looksUp : c.question.looksUp p c.files)
    (h : Fails (p.fill c.files) (s, []) e (s', warnings)) :
    c.request p s = ((.error e, warnings.reverse), s) := by
  rcases c with ⟨question, files⟩
  cases question with
  | types => exact Request.map_eq _ (ask_of_fails h)
  | find name => exact Request.map_eq _ (ask_of_fails h)
  | extract settings => exact Request.map_eq _ ((extract_of_present looksUp).trans (ask_of_fails h))

theorem request_of_missing (h : ¬ c.question.looksUp p c.files) :
    c.request p s = ((.error (.missingProject p.name), []), s) := by
  rcases c with ⟨question, files⟩
  cases question with
  | types => exact absurd rfl h
  | find name => exact absurd rfl h
  | extract settings => exact Request.map_eq _ (extract_of_missing h)

theorem perform_eq_ok {α : Type} {x : Work α} {a : α} (h : (x.perform s).1.1 = .ok a) :
    ∃ s' warnings, Gives x (s, []) a (s', warnings) := by
  rcases gives_or_fails x (s, []) with ⟨b, ⟨s', warnings⟩, hx⟩ | ⟨e, ⟨s', warnings⟩, hx⟩
  · cases (congrArg (·.1) hx).symm.trans h
    exact ⟨s', warnings, hx⟩
  · cases (congrArg (·.1) hx).symm.trans h

theorem perform_eq_error {α : Type} {x : Work α} (h : (x.perform s).1.1 = .error e) :
    ∃ s' warnings, Fails x (s, []) e (s', warnings) := by
  rcases gives_or_fails x (s, []) with ⟨b, ⟨s', warnings⟩, hx⟩ | ⟨e', ⟨s', warnings⟩, hx⟩
  · cases (congrArg (·.1) hx).symm.trans h
  · cases (congrArg (·.1) hx).symm.trans h
    exact ⟨s', warnings, hx⟩

theorem request_of_no_load (h : c.load p s = none) : c.request p s = ((.error (.missingProject p.name), []), s) := by
  unfold Call.load at h
  split at h
  · cases h
  · rename_i missing
    exact request_of_missing missing

/-- A call whose reading fails fails with the same error. There is nothing to fail once the project has been read. -/
theorem request_of_failed_load (h : c.load p s = some (.error e)) :
    ¬ s.isLoaded ∧ (∃ warnings, c.request p s = ((.error e, warnings), s)) ∧
      ∃ root ∈ p.libraries ++ [p.root], ∃ entry ∈ Sources.entries c.files p.exclusions root,
        ∃ w w', Fails (Sources.readFile c.files.parser root entry) w e w' := by
  unfold Call.load at h
  split at h
  · rename_i looksUp
    obtain ⟨s', warnings, hf⟩ := perform_eq_error (Option.some.inj h)
    exact ⟨(fails_fill hf).2.1, ⟨_, request_of_fails looksUp hf⟩, file_of_fails_fill hf⟩
  · cases h

theorem request_of_load (h : c.load p s = some (.ok ())) : ∃ s' warnings, s'.isLoaded ∧
    c.request p s = ((c.question.answer p c.files s', warnings), s') := by
  unfold Call.load at h
  split at h
  · rename_i looksUp
    obtain ⟨s', warnings, hg⟩ := perform_eq_ok (Option.some.inj h)
    exact ⟨s', _, isLoaded_of_fill hg, request_of_gives looksUp hg⟩
  · cases h

/-- A project that has been read answers from its tables, whatever its files are now. -/
theorem request_of_loaded (loaded : s.isLoaded) : c.request p s =
    ((if c.question.looksUp p c.files then c.question.answer p c.files s
      else .error (.missingProject p.name), []), s) := by
  split
  · rename_i looksUp
    exact request_of_gives looksUp (fill_of_loaded loaded)
  · rename_i missing
    exact request_of_missing missing

/-- In the state `s` the tables stay as they are, and with them every answer, whatever the files are. -/
structure Settled (p : Project) (s : State) : Prop where
  after_eq : ∀ calls, p.after s calls = s
  request_eq : ∀ (q : Question) (fs fs' : Files), q.looksUp p fs = q.looksUp p fs' →
    Call.request p ⟨q, fs⟩ s = Call.request p ⟨q, fs'⟩ s
  find_eq : ∀ fs name, p.find fs name s = ((.ok (s.index.find? name), []), s)

/-- Calls from the state `s` read all or nothing: a call whose reading fails, at some source file, leaves the state
as it was, and the next is answered as by a new project; after a call whose reading succeeds all is settled. -/
structure Atomic (p : Project) (s : State) : Prop where
  failed : ∀ c e, Call.load p c s = some (.error e) → (c.request p s).1.1 = .error e ∧ (c.request p s).2 = s ∧
    (∀ next : Call, next.request p (c.request p s).2 = next.request p {}) ∧
    ∃ root ∈ p.libraries ++ [p.root], ∃ entry ∈ Sources.entries c.files p.exclusions root,
      ∃ w w', Fails (Sources.readFile c.files.parser root entry) w e w'
  missing : ∀ c, Call.load p c s = none → c.request p s = ((.error (.missingProject p.name), []), s)
  succeeded : ∀ c, Call.load p c s = some (.ok ()) →
    (∃ warnings, (c.request p s).1 = (c.question.answer p c.files (c.request p s).2, warnings)) ∧
      (c.request p s).2.isLoaded ∧ Settled p (c.request p s).2

theorem after_of_loaded (loaded : s.isLoaded) (calls : List Call) : p.after s calls = s := by
  induction calls with
  | nil => rfl
  | cons c calls ih => rw [after, request_of_loaded loaded, ih]

theorem settled (loaded : s.isLoaded) : Settled p s where
  after_eq := after_of_loaded loaded
  request_eq := by
    intro q fs fs' looksUp
    rw [request_of_loaded loaded, request_of_loaded loaded, looksUp]
    split
    · rename_i present
      cases q with
      | types => rfl
      | find name => rfl
      | extract settings =>
        have same : p.isPresent fs = p.isPresent fs' := looksUp
        rw [Question.answer, Question.answer, State.provider, State.provider, same]
    · rfl
  find_eq := fun fs name => ask_of_loaded loaded

/-- A call leaves a project that has not been read as new, or it has read it. -/
theorem new_or_loaded_step (h : s = {} ∨ s.isLoaded) : (c.request p s).2 = {} ∨ (c.request p s).2.isLoaded := by
  rcases h with rfl | loaded
  · rcases load : c.load p {} with _ | (e | ⟨⟩)
    · rw [request_of_no_load load]
      exact .inl rfl
    · obtain ⟨-, ⟨warnings, eq⟩, -⟩ := request_of_failed_load load
      exact .inl (by rw [eq])
    · obtain ⟨s', warnings, loaded, eq⟩ := request_of_load load
      exact .inr (by rw [eq]; exact loaded)
  · rw [request_of_loaded loaded]
    exact .inr loaded

theorem new_or_loaded (h : s = {} ∨ s.isLoaded) (calls : List Call) :
    p.after s calls = {} ∨ (p.after s calls).isLoaded := by
  induction calls generalizing s with
  | nil => exact h
  | cons c calls ih => exact ih (new_or_loaded_step h)

theorem atomic (p : Project) (calls : List Call) : Atomic p (p.after {} calls) where
  failed := by
    intro c e failed
    obtain ⟨unread, ⟨warnings, eq⟩, file⟩ := request_of_failed_load failed
    have new : p.after {} calls = {} := (new_or_loaded (.inl rfl) calls).resolve_right unread
    rw [eq]
    exact ⟨rfl, rfl, fun next => by rw [new], file⟩
  missing := fun c => request_of_no_load
  succeeded := by
    intro c succeeded
    obtain ⟨s', warnings, loaded, eq⟩ := request_of_load succeeded
    rw [eq]
    exact ⟨⟨warnings, rfl⟩, loaded, settled loaded⟩

/-- `class A {}` beside a second file, which holds `class B {}`. -/
def retriedFiles (second : Content) : Files where
  isDirectory := fun _ => true
  below := fun _ => [
    ⟨["A.java"], .parsed { root := ⟨.other "program", true, none, "", 1, [typeNode .classDeclaration "A" [] []]⟩ }⟩,
    ⟨["B.java"], second⟩]
  writeFailure? := fun _ => none
  parser := .ofText

def readableFile : Content :=
  .parsed { root := ⟨.other "program", true, none, "", 1, [typeNode .classDeclaration "B" [] []]⟩ }

def failingCall : Call := ⟨.types, retriedFiles .directory⟩

theorem atomic_retried :
    failingCall.load nestedProject (nestedProject.after {} []) = some (.error (.unreadable "p/B.java")) ∧
      (nestedProject.types (retriedFiles readableFile) (failingCall.request nestedProject {}).2).1.1 = .ok [
        { name := "A", scope := some (.lexical { enclosing := ["A"] }), sourceFile := some "p/A.java" },
        { name := "B", scope := some (.lexical { enclosing := ["B"] }), sourceFile := some "p/B.java" }] := by
  have fails : failingCall.load nestedProject (nestedProject.after {} []) = some (.error (.unreadable "p/B.java")) := by
    cbv
  have unchanged := ((atomic nestedProject []).failed failingCall _ fails).2.1
  refine ⟨fails, ?_⟩
  rw [after] at unchanged
  rw [unchanged, types_new]
  cbv

end Project
end TypeAtlas
