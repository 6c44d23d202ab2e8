import TypeAtlas.Syntax.Grammar.Cursor

/-! What the steps of the grammar give. The tokens that a step leaves are among those before it; so what holds of
all tokens of a file holds of every token that a step comes upon, and results can be described by it. -/

namespace TypeAtlas.Syntax

/-- Where all tokens have the property `P`, those that the step leaves have it, and its result has `Q`. -/
def Yields {α : Type} (P : Token → Prop) (p : Parse α) (Q : α → Prop) : Prop :=
  ∀ c a c', (∀ t ∈ c.tokens, P t) → p.run c = some (a, c') → (∀ t ∈ c'.tokens, P t) ∧ Q a

/-- The step leaves only tokens with the property `P` where all have it. -/
def Keeps {α : Type} (P : Token → Prop) (p : Parse α) : Prop := Yields P p fun _ => True

section

variable {α β : Type} {P : Token → Prop} {p q : Parse α} {f : α → Parse β} {Q R : α → Prop} {S : β → Prop}

namespace Yields

theorem imp (h : Yields P p Q) (hQ : ∀ a, Q a → R a) : Yields P p R := by
  intro c a c' hc run
  obtain ⟨hc', ha⟩ := h c a c' hc run
  exact ⟨hc', hQ a ha⟩

theorem keeps (h : Yields P p Q) : Keeps P p := h.imp fun _ _ => trivial

theorem pure {a : α} (h : Q a) : Yields P (Pure.pure a) Q := by
  rintro c _ _ hc ⟨⟩
  exact ⟨hc, h⟩

theorem failure : Yields P (Alternative.failure : Parse α) Q := by
  rintro c a c' - ⟨⟩

theorem bind (h : Yields P p Q) (hf : ∀ a, Q a → Yields P (f a) S) : Yields P (p >>= f) S := by
  intro c b c' hc run
  rw [StateT.run_bind, Option.bind_eq_bind, Option.bind_eq_some_iff] at run
  obtain ⟨⟨a, c₁⟩, first, second⟩ := run
  obtain ⟨hc₁, ha⟩ := h c a c₁ hc first
  exact hf a ha c₁ b c' hc₁ second

theorem orElse (hp : Yields P p Q) (hq : Yields P q Q) : Yields P (p <|> q) Q := by
  intro c a c' hc run
  change (p.run c <|> q.run c) = some (a, c') at run
  cases first : p.run c with
  | none =>
    rw [first] at run
    exact hq c a c' hc run
  | some r =>
    rw [first] at run
    cases run
    exact hp c a c' hc first

theorem ite {b : Prop} [Decidable b] (hp : b → Yields P p Q) (hq : ¬ b → Yields P q Q) :
    Yields P (if b then p else q) Q := by
  split
  · exact hp ‹_›
  · exact hq ‹_›

end Yields

theorem Keeps.then (h : Keeps P p) (hf : ∀ a, Yields P (f a) S) : Yields P (p >>= f) S := h.bind fun a _ => hf a

end

namespace Parse

variable {α : Type} {P : Token → Prop} {p : Parse α} {Q : α → Prop}

theorem yields_get : Yields P (get : Parse Cursor) fun c => ∀ t ∈ c.tokens, P t := by
  rintro c _ _ hc ⟨⟩
  exact ⟨hc, hc⟩

theorem keeps_set {c : Cursor} (h : ∀ t ∈ c.tokens, P t) : Keeps P (set c) := by
  rintro _ _ _ - ⟨⟩
  exact ⟨h, trivial⟩

theorem yields_attempt (h : Yields P p Q) : Yields P (attempt p) fun o => ∀ a ∈ o, Q a := by
  intro c o c' hc run
  rw [StateT.run, attempt] at run
  cases result : p.run c with
  | none =>
    rw [result] at run
    cases run
    exact ⟨hc, nofun⟩
  | some r =>
    rw [result] at run
    cases run
    obtain ⟨hc', ha⟩ := h c _ _ hc result
    exact ⟨hc', by rintro _ ⟨⟩; exact ha⟩

theorem yields_ahead : Yields P ahead fun ts => ∀ t ∈ ts, P t := yields_get.bind fun _ hc => .pure hc

theorem keeps_ahead : Keeps P ahead := yields_ahead.keeps

theorem keeps_left : Keeps P left := yields_get.bind fun _ _ => .pure trivial

theorem yields_look : Yields P look P := by
  refine yields_ahead.bind fun ts hts => ?_
  split
  · exact .failure
  · exact .pure (hts _ List.mem_cons_self)

theorem yields_take : Yields P take P := by
  refine yields_get.bind fun c hc => ?_
  split
  · exact .failure
  · rename_i t ts eq
    rw [eq] at hc
    exact (keeps_set fun u hu => hc u (List.mem_cons_of_mem t hu)).then fun _ => .pure (hc t List.mem_cons_self)

theorem keeps_look : Keeps P look := yields_look.keeps

theorem keeps_take : Keeps P take := yields_take.keeps

theorem keeps_nextIs (test : Token → Bool) : Keeps P (nextIs test) := yields_ahead.bind fun _ _ => .pure trivial

theorem keeps_takeIf (test : Token → Bool) : Keeps P (takeIf test) :=
  (keeps_nextIs test).then fun _ => .ite (fun _ => keeps_take.then fun _ => .pure trivial) fun _ => .pure trivial

theorem yields_expect (test : Token → Bool) : Yields P (expect test) fun t => P t ∧ test t := by
  intro c t c' hc run
  have taken : test t ∧ take.run c = some (t, c') := by
    obtain ⟨source, tokens, stop⟩ := c
    cases tokens with
    | nil => cases run
    | cons u us =>
      change (if test u then take else failure : Parse Token).run ⟨source, u :: us, stop⟩ = some (t, c') at run
      split at run
      · rename_i hu
        refine ⟨?_, run⟩
        cases run
        exact hu
      · cases run
  obtain ⟨hc', ht⟩ := yields_take c t c' hc taken.2
  exact ⟨hc', ht, taken.1⟩

theorem yields_identifier : Yields P identifier fun t => P t ∧ t.isIdentifier := yields_expect _

theorem keeps_identifier : Keeps P identifier := yields_identifier.keeps

theorem keeps_symbol (c : Char) : Keeps P (symbol c) := (yields_expect _).keeps

theorem keeps_word (w : String) : Keeps P (word w) := (yields_expect _).keeps

theorem yields_many {p : Parse (Option α)} (h : Yields P p fun o => ∀ a ∈ o, Q a) :
    ∀ limit, Yields P (many p limit) fun as => ∀ a ∈ as, Q a
  | 0 => .pure nofun
  | limit + 1 => by
    refine h.bind fun o ho => ?_
    cases o with
    | none => exact .pure nofun
    | some a =>
      exact (yields_many h limit).bind fun as has => .pure (List.forall_mem_cons.mpr ⟨ho a rfl, has⟩)

theorem keeps_many {p : Parse (Option α)} (h : Keeps P p) (limit : Nat) : Keeps P (many p limit) :=
  (yields_many (h.imp (R := fun o => ∀ a ∈ o, True) fun _ _ _ _ => trivial) limit).keeps

theorem yields_commaSeparated (h : Yields P p Q) : Yields P (commaSeparated p) fun as => ∀ a ∈ as, Q a := by
  have next : Yields P (do if ← takeIf (·.isSymbol ',') then return some (← p) else return none)
      fun o => ∀ a ∈ o, Q a := by
    refine (keeps_takeIf _).then fun _ => .ite (fun _ => ?_) fun _ => .pure nofun
    exact h.bind fun a ha => .pure (by rintro _ ⟨⟩; exact ha)
  refine h.bind fun a ha => keeps_left.then fun limit => (yields_many next limit).bind fun as has => ?_
  exact .pure (List.forall_mem_cons.mpr ⟨ha, has⟩)

theorem suffix_of_afterGroup {ts us : List Token} {depth stop : Nat} (h : afterGroup depth ts = some (us, stop)) :
    us <:+ ts := by
  induction ts generalizing depth with
  | nil => simp [afterGroup] at h
  | cons t ts ih =>
    rw [afterGroup] at h
    split at h
    · exact (ih h).trans (List.suffix_cons t ts)
    split at h
    · split at h
      · cases h
        exact List.suffix_cons t _
      · exact (ih h).trans (List.suffix_cons t ts)
    split at h
    · cases h
    · exact (ih h).trans (List.suffix_cons t ts)

theorem keeps_group : Keeps P group := by
  refine yields_get.bind fun c hc => ?_
  split
  · exact .failure
  · rename_i ts stop eq
    exact keeps_set fun t ht => hc t ((suffix_of_afterGroup eq).subset ht)

theorem yields_node (kind : NodeKind) (field : Option String) (start : Token) (children : List Tree) :
    Yields P (node kind field start children) fun t =>
      t.kind = kind ∧ t.field = field ∧ t.children = children :=
  yields_get.bind fun _ _ => .pure ⟨rfl, rfl, rfl⟩

theorem keeps_annotation? : Keeps P annotation? := by
  refine keeps_ahead.then fun ts => ?_
  split
  · refine .ite (fun _ => ?_) fun _ => .pure trivial
    refine keeps_take.then fun _ => keeps_identifier.then fun _ => keeps_left.then fun limit => ?_
    refine (keeps_many ?segment limit).then fun _ => (keeps_nextIs _).then fun _ => ?arguments
    case segment =>
      refine keeps_ahead.then fun ts => ?_
      split
      · refine .ite (fun _ => ?_) fun _ => .pure trivial
        exact keeps_take.then fun _ => keeps_take.then fun _ => .pure trivial
      · exact .pure trivial
    case arguments => exact .ite (fun _ => keeps_group.then fun _ => .pure trivial) fun _ => .pure trivial
  · exact .pure trivial

theorem keeps_annotations : Keeps P annotations :=
  keeps_left.then fun limit => (keeps_many keeps_annotation? limit).then fun _ => .pure trivial

end Parse
end TypeAtlas.Syntax
