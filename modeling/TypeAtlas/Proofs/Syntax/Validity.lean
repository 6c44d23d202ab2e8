import TypeAtlas.Proofs.Syntax.Codes
import TypeAtlas.Proofs.Syntax.RoundTrip
import TypeAtlas.Proofs.Signature.Segments

/-! Which answers of the encoder are signatures. The encoder copies names as they stand and takes void
for a type wherever it is written, so it also answers with texts that are no signatures. Its answer can
be read just in case the tree is sound: all names in it are made of the characters of names, and void
stands nowhere but alone. -/

namespace TypeAtlas.Syntax

open Signature

mutual

/-- A type without void and with names for its identifiers. -/
inductive SoundType : Tree → Prop
  | keyword {t : Tree} (kind : t.kind.isKeyword) (text : t.text ≠ "void") : SoundType t
  | reference {t : Tree} (kind : t.kind.isReference) (path : SoundPath t) : SoundType t
  | array {t u : Tree} (kind : t.kind = .arrayType) (element : t.child? "element" = some u) (sound : SoundType u) :
      SoundType t
  | annotated {t u : Tree} (kind : t.kind = .annotatedType) (last : t.parts.getLast? = some u) (sound : SoundType u) :
      SoundType t

/-- What has arguments is given no further ones. -/
inductive SoundPath : Tree → Prop
  | identifier {t : Tree} (kind : t.kind = .typeIdentifier) (name : IsName t.text) : SoundPath t
  | member {t u v : Tree} (kind : t.kind = .scopedTypeIdentifier) (parts : t.parts = [u, v]) (outer : SoundPath u)
      (name : IsName v.text) : SoundPath t
  | generic {t u v : Tree} (kind : t.kind = .genericType) (parts : t.parts = [u, v]) (raw : u.kind ≠ .genericType)
      (head : SoundPath u) (arguments : ∀ a ∈ v.parts, SoundArgument a) : SoundPath t

inductive SoundArgument : Tree → Prop
  | unbounded {t : Tree} (kind : t.kind = .wildcard) (bounds : t.bounds = []) : SoundArgument t
  | bounded {t u : Tree} (kind : t.kind = .wildcard) (last : t.bounds.getLast? = some u) (sound : SoundType u) :
      SoundArgument t
  | exactly {t : Tree} (kind : t.kind ≠ .wildcard) (sound : SoundType t) : SoundArgument t

end

/-- Void, possibly annotated; an array of no dimensions is its element. -/
inductive VoidType : Tree → Prop
  | keyword {t : Tree} (kind : t.kind.isKeyword) (text : t.text = "void") : VoidType t
  | array {t u : Tree} (kind : t.kind = .arrayType) (element : t.child? "element" = some u) (dims : t.dimensions = 0)
      (void : VoidType u) : VoidType t
  | annotated {t u : Tree} (kind : t.kind = .annotatedType) (last : t.parts.getLast? = some u) (void : VoidType u) :
      VoidType t

variable {t u v : Tree} {depth : Nat} {cs : List Char}

/-! ### What a sound tree is made of -/

theorem NodeKind.isKeyword_eq_false {k : NodeKind} (h : k.isReference) : k.isKeyword = false := by
  unfold isReference at h
  split at h
  · rfl
  · rfl
  · rfl
  · cases h

namespace SoundType

theorem text_ne (h : SoundType t) (kind : t.kind.isKeyword) : t.text ≠ "void" := by
  cases h with
  | keyword _ text => exact text
  | reference kind' path => simp [NodeKind.isKeyword_eq_false kind'] at kind
  | array kind' => simp [kind', NodeKind.isKeyword] at kind
  | annotated kind' => simp [kind', NodeKind.isKeyword] at kind

theorem path (h : SoundType t) (kind : t.kind.isReference) : SoundPath t := by
  cases h with
  | keyword kind' text => simp [NodeKind.isKeyword_eq_false kind] at kind'
  | reference _ path => exact path
  | array kind' => simp [kind', NodeKind.isReference] at kind
  | annotated kind' => simp [kind', NodeKind.isReference] at kind

theorem element (h : SoundType t) (kind : t.kind = .arrayType) (element : t.child? "element" = some u) :
    SoundType u := by
  cases h with
  | keyword kind' text => simp [kind, NodeKind.isKeyword] at kind'
  | reference kind' path => simp [kind, NodeKind.isReference] at kind'
  | array _ element' sound => exact Option.some.inj (element'.symm.trans element) ▸ sound
  | annotated kind' => simp [kind] at kind'

theorem last (h : SoundType t) (kind : t.kind = .annotatedType) (last : t.parts.getLast? = some u) : SoundType u := by
  cases h with
  | keyword kind' text => simp [kind, NodeKind.isKeyword] at kind'
  | reference kind' path => simp [kind, NodeKind.isReference] at kind'
  | array kind' => simp [kind] at kind'
  | annotated _ last' sound => exact Option.some.inj (last'.symm.trans last) ▸ sound

end SoundType

namespace SoundPath

theorem name (h : SoundPath t) (kind : t.kind = .typeIdentifier) : IsName t.text := by
  cases h with
  | identifier _ name => exact name
  | member kind' => simp [kind] at kind'
  | generic kind' => simp [kind] at kind'

theorem scope (h : SoundPath t) (kind : t.kind = .scopedTypeIdentifier) (parts : t.parts = [u, v]) :
    SoundPath u ∧ IsName v.text := by
  cases h with
  | identifier kind' => simp [kind] at kind'
  | member _ parts' outer name =>
    cases parts'.symm.trans parts
    exact ⟨outer, name⟩
  | generic kind' => simp [kind] at kind'

theorem segment (h : SoundPath t) (kind : t.kind = .genericType) (parts : t.parts = [u, v]) :
    u.kind ≠ .genericType ∧ SoundPath u ∧ ∀ a ∈ v.parts, SoundArgument a := by
  cases h with
  | identifier kind' => simp [kind] at kind'
  | member kind' => simp [kind] at kind'
  | generic _ parts' raw head arguments =>
    cases parts'.symm.trans parts
    exact ⟨raw, head, arguments⟩

end SoundPath

namespace SoundArgument

theorem bound (h : SoundArgument t) (kind : t.kind = .wildcard) (last : t.bounds.getLast? = some u) :
    SoundType u := by
  cases h with
  | unbounded _ bounds => simp [bounds] at last
  | bounded _ last' sound => exact Option.some.inj (last'.symm.trans last) ▸ sound
  | exactly kind' => exact absurd kind kind'

theorem type (h : SoundArgument t) (kind : t.kind ≠ .wildcard) : SoundType t := by
  cases h with
  | unbounded kind' => exact absurd kind' kind
  | bounded kind' => exact absurd kind' kind
  | exactly _ sound => exact sound

end SoundArgument

/-! ### Sound trees have signatures

An argument at a level of nesting stands one deeper than the reference it is for. -/

mutual

theorem TypeCode.written : {t : Tree} → {depth : Nat} → {cs : List Char} → TypeCode t depth cs → SoundType t →
    ∃ ty : WrittenType, ty.code = cs ∧ depth + ty.nesting ≤ maxNesting
  | _, _, _, .void fits kind text, sound => absurd text (sound.text_ne kind)
  | _, _, _, .primitive fits kind p text, sound => ⟨.primitive p, rfl, fits⟩
  | _, _, _, .reference fits kind path, sound => by
    obtain ⟨r, rfl, nesting, -⟩ := path.written (sound.path kind) fits
    exact ⟨.reference r, rfl, nesting⟩
  | t, _, _, .array kind element code, sound => by
    obtain ⟨ty, rfl, nesting⟩ := code.written (sound.element kind element)
    exact ⟨.array ty t.dimensions, rfl, nesting⟩
  | _, _, _, .annotated kind last code, sound => code.written (sound.last kind last)

theorem PathCode.written : {t : Tree} → {depth : Nat} → {cs : List Char} → PathCode t depth cs → SoundPath t →
    depth ≤ maxNesting → ∃ r : WrittenReference, r.code = cs ∧ depth + r.nesting ≤ maxNesting ∧
      (t.kind ≠ .genericType → ∃ h, r = .raw h)
  | _, _, _, .identifier kind, sound, fits => by
    obtain ⟨x, hx⟩ := sound.name kind
    exact ⟨.raw (.simple x), hx, fits, fun _ => ⟨_, rfl⟩⟩
  | _, _, _, .member kind parts path, sound, fits => by
    obtain ⟨outer, x, hx⟩ := sound.scope kind parts
    obtain ⟨r, rfl, nesting, -⟩ := path.written outer fits
    refine ⟨.raw (.member r x), ?_, nesting, fun _ => ⟨_, rfl⟩⟩
    rw [WrittenReference.code, WrittenHead.code, hx]
  | _, _, _, .generic kind parts path nonempty arguments, sound, fits => by
    obtain ⟨raw, head, sounds⟩ := sound.segment kind parts
    obtain ⟨r, rfl, nesting, hr⟩ := path.written head fits
    obtain ⟨h, rfl⟩ := hr raw
    obtain ⟨as, rfl, nestings⟩ := arguments.written nonempty sounds (Nat.succ_le_succ fits)
    refine ⟨.generic h as, rfl, ?_, fun generic => absurd kind generic⟩
    simp only [WrittenReference.nesting] at nesting ⊢
    omega

theorem ArgumentCodes.written : {ts : List Tree} → {level : Nat} → {cs : List Char} → ArgumentCodes ts level cs →
    ts ≠ [] → (∀ a ∈ ts, SoundArgument a) → level ≤ maxNesting + 1 →
    ∃ as : WrittenArguments, as.code = cs ∧ level + as.nesting ≤ maxNesting + 1
  | _, _, _, .nil, nonempty, _, _ => absurd rfl nonempty
  | t :: ts, _, _, .cons argument rest, _, sounds, fits => by
    obtain ⟨a, rfl, nesting⟩ := argument.written (sounds t List.mem_cons_self) fits
    have ih := fun nonempty => rest.written nonempty (fun b hb => sounds b (List.mem_cons_of_mem t hb)) fits
    cases ts with
    | nil =>
      cases rest
      exact ⟨.one a, (List.append_nil _).symm, nesting⟩
    | cons t' ts =>
      obtain ⟨as, rfl, nestings⟩ := ih (List.cons_ne_nil t' ts)
      refine ⟨.more a as, rfl, ?_⟩
      rw [WrittenArguments.nesting]
      omega

theorem ArgumentCode.written : {t : Tree} → {level : Nat} → {cs : List Char} → ArgumentCode t level cs →
    SoundArgument t → level ≤ maxNesting + 1 →
    ∃ a : WrittenArgument, a.code = cs ∧ level + a.nesting ≤ maxNesting + 1
  | _, _, _, .unbounded kind bounds, _, fits => ⟨.unbounded, rfl, fits⟩
  | _, _, _, .upper kind last super code, sound, _ => by
    obtain ⟨ty, rfl, nesting⟩ := code.written (sound.bound kind last)
    exact ⟨.upper ty, rfl, Nat.succ_le_succ nesting⟩
  | _, _, _, .lower kind last super code, sound, _ => by
    obtain ⟨ty, rfl, nesting⟩ := code.written (sound.bound kind last)
    exact ⟨.lower ty, rfl, Nat.succ_le_succ nesting⟩
  | _, _, _, .exactly kind code, sound, _ => by
    obtain ⟨ty, rfl, nesting⟩ := code.written (sound.type kind)
    exact ⟨.exactly ty, rfl, Nat.succ_le_succ nesting⟩

end

/-! ### Signatures come from sound trees

Identifiers have none of the characters that end a name in a signature. Where that is so, the text of a
tree can be taken apart in one way only, name by name. -/

namespace Tree

inductive Contains (root : Tree) : Tree → Prop
  | refl : root.Contains root
  | child {t c : Tree} (h : root.Contains t) (mem : c ∈ t.children) : root.Contains c

theorem Contains.trans {root t c : Tree} (h : root.Contains t) (h' : t.Contains c) : root.Contains c := by
  induction h' with
  | refl => exact h
  | child _ mem ih => exact ih.child mem

/-- All texts that are copied into signatures are plain. -/
structure PlainNames (root : Tree) : Prop where
  identifier : ∀ t, root.Contains t → t.kind = .typeIdentifier → Plain t.text
  member : ∀ t u v, root.Contains t → t.kind = .scopedTypeIdentifier → t.parts = [u, v] → Plain v.text

theorem PlainNames.of_contains {root t : Tree} (h : root.PlainNames) (ht : root.Contains t) : t.PlainNames where
  identifier u hu := h.identifier u (ht.trans hu)
  member u x y hu := h.member u x y (ht.trans hu)

theorem PlainNames.child {t c : Tree} (h : t.PlainNames) (mem : c ∈ t.children) : c.PlainNames :=
  h.of_contains (.child .refl mem)

theorem PlainNames.part {t c : Tree} (h : t.PlainNames) (mem : c ∈ t.parts) : c.PlainNames :=
  h.child (List.mem_filter.mp mem).1

end Tree


theorem TypeCode.eq_cons : {t : Tree} → {depth : Nat} → {cs : List Char} → TypeCode t depth cs →
    ∃ c rest, cs = c :: rest ∧ c ≠ '>' ∧ c ≠ '*' ∧ c ≠ '+' ∧ c ≠ '-'
  | _, _, _, .void _ _ _ => ⟨'V', [], rfl, by decide⟩
  | _, _, _, .primitive _ _ p _ => ⟨p.marker, [], rfl, by cases p <;> decide⟩
  | _, _, _, .reference _ _ _ => ⟨'Q', _, rfl, by decide⟩
  | t, _, _, .array _ _ code => by
    obtain ⟨c, rest, rfl, hc⟩ := code.eq_cons
    cases t.dimensions with
    | zero => exact ⟨c, rest, rfl, hc⟩
    | succ n => exact ⟨'[', _, rfl, by decide⟩
  | _, _, _, .annotated _ _ code => code.eq_cons

theorem ArgumentCode.eq_cons (h : ArgumentCode t depth cs) : ∃ c rest, cs = c :: rest ∧ c ≠ '>' := by
  cases h with
  | unbounded => exact ⟨'*', [], rfl, by decide⟩
  | upper => exact ⟨'+', _, rfl, by decide⟩
  | lower => exact ⟨'-', _, rfl, by decide⟩
  | exactly _ code =>
    obtain ⟨c, rest, rfl, hc, -⟩ := code.eq_cons
    exact ⟨c, rest, rfl, hc⟩

mutual

theorem TypeCode.sound : {t : Tree} → {depth : Nat} → {cs : List Char} → TypeCode t depth cs → t.PlainNames →
    {τ : TypeTree} → {r s : List Char} → τ.text ++ r = cs ++ s → SoundType t ∧ r = s
  | _, _, _, .void _ _ _, _, τ, r, s, h => by
    obtain ⟨c, rest, hc, -, -, -, -, hv⟩ := τ.text_eq_cons
    rw [hc] at h
    exact absurd (List.cons.inj h).1 hv
  | _, _, _, .primitive _ kind p text, _, τ, r, s, h =>
    ⟨.keyword kind (by rw [text]; cases p <;> decide), TypeTree.eq_of_marker h⟩
  | _, _, _, .reference _ kind path, plain, τ, r, s, h => by
    rw [List.append_assoc, List.cons_append] at h
    obtain ⟨body, h⟩ := TypeTree.eq_of_reference h
    obtain ⟨sound, follows⟩ := path.sound plain rfl h
    exact ⟨.reference kind sound, follows.of_close⟩
  | _, _, _, .array kind element code, plain, τ, r, s, h => by
    rw [List.append_assoc] at h
    obtain ⟨σ, h⟩ := TypeTree.eq_of_dims _ h
    obtain ⟨sound, rfl⟩ := code.sound (plain.child (List.mem_of_find?_eq_some element)) h
    exact ⟨.array kind element sound, rfl⟩
  | _, _, _, .annotated kind last code, plain, τ, r, s, h => by
    obtain ⟨sound, rfl⟩ := code.sound (plain.part (List.mem_of_getLast? last)) h
    exact ⟨.annotated kind last sound, rfl⟩

theorem PathCode.sound : {t : Tree} → {depth : Nat} → {cs : List Char} → PathCode t depth cs → t.PlainNames →
    {body : BodyTree} → {r rest : List Char} → {c : Char} → endsName c → body.text ++ r = cs ++ c :: rest →
    SoundPath t ∧ Follows r (t.kind != .genericType) (c :: rest)
  | t, _, _, .identifier kind, plain, body, r, rest, c, ends, h => by
    obtain ⟨name, follows⟩ := BodyTree.isName_of_plain (plain.identifier t .refl kind) ends h
    rw [kind]
    exact ⟨.identifier kind name, follows⟩
  | t, _, _, .member kind parts path, plain, body, r, rest, c, ends, h => by
    rw [List.append_assoc, List.cons_append] at h
    obtain ⟨outer, follows⟩ := path.sound (plain.part (by simp [parts])) rfl h
    obtain ⟨inner, h⟩ := follows.of_member
    obtain ⟨name, follows⟩ := BodyTree.isName_of_plain (plain.member t _ _ .refl kind parts) ends h
    rw [kind]
    exact ⟨.member kind parts outer name, follows⟩
  | t, _, _, .generic (u := u) (v := v) kind parts path nonempty arguments, plain, body, r, rest, c, ends, h => by
    rw [List.append_assoc, List.append_assoc, List.cons_append] at h
    obtain ⟨head, follows⟩ := path.sound (plain.part (by simp [parts])) rfl h
    obtain ⟨raw, as, tail, h, follows⟩ := follows.of_arguments
    rw [as.text_eq_flatMap] at h
    have plains : v.PlainNames := plain.part (by simp [parts])
    obtain ⟨sounds, rfl⟩ := arguments.sound (fun a ha => plains.part ha) h
    rw [kind]
    exact ⟨.generic kind parts (by simpa using raw) head sounds, follows⟩

theorem ArgumentCodes.sound : {ts : List Tree} → {level : Nat} → {cs : List Char} → ArgumentCodes ts level cs →
    (∀ a ∈ ts, a.PlainNames) → {as : List ArgumentTree} → {r s : List Char} →
    as.flatMap ArgumentTree.text ++ '>' :: r = cs ++ '>' :: s → (∀ a ∈ ts, SoundArgument a) ∧ r = s
  | _, _, _, .nil, _, as, r, s, h => by
    cases as with
    | nil => exact ⟨fun a ha => absurd ha List.not_mem_nil, (List.cons.inj h).2⟩
    | cons a as =>
      obtain ⟨c, rest, ha, hc⟩ := a.text_eq_cons
      simp only [List.flatMap_cons, ha, List.cons_append, List.nil_append, List.cons.injEq] at h
      exact absurd h.1 hc
  | t :: ts, _, _, .cons argument rest, plain, as, r, s, h => by
    cases as with
    | nil =>
      obtain ⟨c, rest, rfl, hc⟩ := argument.eq_cons
      simp only [List.flatMap_nil, List.cons_append, List.nil_append, List.cons.injEq] at h
      exact absurd h.1.symm hc
    | cons a as =>
      rw [List.flatMap_cons, List.append_assoc, List.append_assoc] at h
      obtain ⟨sound, h⟩ := argument.sound (plain t List.mem_cons_self) h
      obtain ⟨sounds, rfl⟩ := rest.sound (fun b hb => plain b (List.mem_cons_of_mem t hb)) h
      exact ⟨List.forall_mem_cons.mpr ⟨sound, sounds⟩, rfl⟩

theorem ArgumentCode.sound : {t : Tree} → {level : Nat} → {cs : List Char} → ArgumentCode t level cs →
    t.PlainNames → {a : ArgumentTree} → {r s : List Char} → a.text ++ r = cs ++ s → SoundArgument t ∧ r = s
  | _, _, _, .unbounded kind bounds, _, a, r, s, h => by
    cases a with
    | unbounded => exact ⟨.unbounded kind bounds, (List.cons.inj h).2⟩
    | exactly τ =>
      obtain ⟨c, rest, hc, -, hu, -⟩ := τ.text_eq_cons
      rw [ArgumentTree.text, hc] at h
      exact absurd (List.cons.inj h).1 hu
    | upper τ => exact absurd (List.cons.inj h).1 (by decide)
    | lower τ => exact absurd (List.cons.inj h).1 (by decide)
  | _, _, _, .upper kind last super code, plain, a, r, s, h => by
    cases a with
    | unbounded => exact absurd (List.cons.inj h).1 (by decide)
    | exactly τ =>
      obtain ⟨c, rest, hc, -, -, hp, -⟩ := τ.text_eq_cons
      rw [ArgumentTree.text, hc] at h
      exact absurd (List.cons.inj h).1 hp
    | upper τ =>
      have mem := Tree.mem_parts_of_mem_bounds (List.mem_of_getLast? last)
      obtain ⟨sound, rfl⟩ := code.sound (plain.part mem) (List.cons.inj h).2
      exact ⟨.bounded kind last sound, rfl⟩
    | lower τ => exact absurd (List.cons.inj h).1 (by decide)
  | _, _, _, .lower kind last super code, plain, a, r, s, h => by
    cases a with
    | unbounded => exact absurd (List.cons.inj h).1 (by decide)
    | exactly τ =>
      obtain ⟨c, rest, hc, -, -, -, hm, -⟩ := τ.text_eq_cons
      rw [ArgumentTree.text, hc] at h
      exact absurd (List.cons.inj h).1 hm
    | upper τ => exact absurd (List.cons.inj h).1 (by decide)
    | lower τ =>
      have mem := Tree.mem_parts_of_mem_bounds (List.mem_of_getLast? last)
      obtain ⟨sound, rfl⟩ := code.sound (plain.part mem) (List.cons.inj h).2
      exact ⟨.bounded kind last sound, rfl⟩
  | _, _, _, .exactly kind code, plain, a, r, s, h => by
    have front := code.eq_cons
    cases a with
    | exactly τ =>
      obtain ⟨sound, rfl⟩ := code.sound plain h
      exact ⟨.exactly kind sound, rfl⟩
    | unbounded =>
      obtain ⟨c, rest, rfl, -, hu, -⟩ := front
      exact absurd (List.cons.inj h).1.symm hu
    | upper τ =>
      obtain ⟨c, rest, rfl, -, -, hp, -⟩ := front
      exact absurd (List.cons.inj h).1.symm hp
    | lower τ =>
      obtain ⟨c, rest, rfl, -, -, -, hm⟩ := front
      exact absurd (List.cons.inj h).1.symm hm

end

/-! ### Void -/

theorem TypeCode.eq_void : {t : Tree} → {depth : Nat} → {cs : List Char} → TypeCode t depth cs → VoidType t →
    cs = ['V']
  | _, _, _, .void _ _ _, _ => rfl
  | _, _, _, .primitive _ kind p text, h => by
    cases h with
    | keyword _ text' =>
      have name : p.name = "void" := text.symm.trans text'
      cases p <;> simp [Primitive.name] at name
    | array kind' => simp [kind', NodeKind.isKeyword] at kind
    | annotated kind' => simp [kind', NodeKind.isKeyword] at kind
  | _, _, _, .reference _ kind _, h => by
    cases h with
    | keyword kind' => simp [NodeKind.isKeyword_eq_false kind] at kind'
    | array kind' => simp [kind', NodeKind.isReference] at kind
    | annotated kind' => simp [kind', NodeKind.isReference] at kind
  | _, _, _, .array kind element code, h => by
    cases h with
    | keyword kind' => simp [kind, NodeKind.isKeyword] at kind'
    | array _ element' dims h =>
      cases element'.symm.trans element
      rw [code.eq_void h, dims]
      rfl
    | annotated kind' => simp [kind] at kind'
  | _, _, _, .annotated kind last code, h => by
    cases h with
    | keyword kind' => simp [kind, NodeKind.isKeyword] at kind'
    | array kind' => simp [kind] at kind'
    | annotated _ last' h =>
      cases last'.symm.trans last
      exact code.eq_void h

theorem TypeCode.void_of_eq : {t : Tree} → {depth : Nat} → {cs : List Char} → TypeCode t depth cs → cs = ['V'] →
    VoidType t
  | _, _, _, .void _ kind text, _ => .keyword kind text
  | _, _, _, .primitive _ _ p _, h => absurd (List.cons.inj h).1 (by cases p <;> decide)
  | _, _, _, .reference _ _ _, h => absurd (List.cons.inj h).1 (by decide)
  | t, _, _, .array kind element code, h => by
    cases dims : t.dimensions with
    | zero =>
      rw [dims] at h
      exact .array kind element dims (code.void_of_eq h)
    | succ n =>
      rw [dims] at h
      exact absurd (List.cons.inj h).1 (by decide)
  | _, _, _, .annotated kind last code, h => .annotated kind last (code.void_of_eq h)

/-! ### Acceptance -/

theorem toList_dimensionMarks (n : Nat) (w : String) :
    (dimensionMarks n ++ w).toList = List.replicate n '[' ++ w.toList := by
  rw [String.toList_append, dimensionMarks, String.toList_ofList]

variable {w : String} {n : Nat}

/-- Void has no dimensions. -/
def Sound (t : Tree) (n : Nat) : Prop := SoundType t ∨ n = 0 ∧ VoidType t

theorem parses_of_sound (h : t.signature = .ok w) (sound : Sound t n) :
    ∃ sig, parse (dimensionMarks n ++ w) = .ok sig := by
  have code := typeCode_of_encodeType t h
  rcases sound with sound | ⟨rfl, void⟩
  · obtain ⟨ty, hty, nesting⟩ := code.written sound
    obtain ⟨text, -, nesting'⟩ := ty.tree_reads n
    refine ⟨_, parse_eq_ok.mpr ⟨.type (ty.tree n), ?_, ?_, rfl⟩⟩
    · rw [toList_dimensionMarks, ← hty]
      exact text
    · rw [Derivation.nesting, nesting']
      omega
  · refine ⟨_, parse_eq_ok.mpr ⟨.void, ?_, Nat.zero_le _, rfl⟩⟩
    rw [toList_dimensionMarks, code.eq_void void]
    rfl

theorem sound_of_parses (h : t.signature = .ok w) (plain : t.PlainNames) {sig : Signature}
    (parses : parse (dimensionMarks n ++ w) = .ok sig) : Sound t n := by
  have code := typeCode_of_encodeType t h
  obtain ⟨d, text, -, -⟩ := parse_eq_ok.mp parses
  rw [toList_dimensionMarks] at text
  cases d with
  | void =>
    refine .inr ?_
    cases n with
    | zero => exact ⟨rfl, code.void_of_eq text.symm⟩
    | succ n => exact absurd (List.cons.inj text).1 (by decide)
  | type τ =>
    obtain ⟨σ, text⟩ := TypeTree.eq_of_dims (t := τ) (r := []) n (by rw [List.append_nil]; exact text)
    rw [← List.append_nil w.toList] at text
    exact .inl (code.sound plain text).1

end TypeAtlas.Syntax
