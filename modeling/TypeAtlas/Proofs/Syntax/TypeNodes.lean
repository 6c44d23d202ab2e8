import TypeAtlas.Proofs.Syntax.TypeUses

/-! The type declarations of a syntax tree. A node is known by its position, the indexes of the children on the
way to it, since equal types may stand in several places; positions ascend where outer types come before those
nested in them and siblings follow one another. The type nodes of a file can be listed in this order. -/

namespace TypeAtlas.Syntax

/-- A type declaration in a tree, with the types around it, innermost first. -/
structure TypeNode where
  position : List Nat
  node : Tree
  around : List Tree

namespace TypeNode

def types (n : TypeNode) : List Tree := n.node :: n.around

def under (p : List Nat) (n : TypeNode) : TypeNode := { n with position := p ++ n.position }

def next (n : TypeNode) : TypeNode := { n with position := n.position.modifyHead (· + 1) }

end TypeNode

namespace Tree

instance (t : Tree) : Decidable t.DeclaresType :=
  inferInstanceAs (Decidable (t.kind.typeKind?.isSome ∧ t.nameText ≠ ""))

/-- A named node among the members that some children hold; the declarations in an enum's body, which follow
its constants, count among them. -/
inductive Member : (children : List Tree) → (position : List Nat) → Tree → Prop
  | direct {ts : List Tree} {i : Nat} {t : Tree} (child : ts[i]? = some t) (named : t.isNamed) : Member ts [i] t
  | constants {ts : List Tree} {i : Nat} {e t : Tree} {p : List Nat} (child : ts[i]? = some e) (named : e.isNamed)
      (kind : e.kind = .enumBodyDeclarations) (member : Member e.children p t) : Member ts (i :: p) t

/-- A member in the first child that is known as body. -/
inductive InBody (t : Tree) : (position : List Nat) → Tree → Prop
  | intro {i : Nat} {b u : Tree} {p : List Nat} (first : t.children.findIdx? (·.field = some "body") = some i)
      (child : t.children[i]? = some b) (member : Member b.children p u) : InBody t (i :: p) u

end Tree

/-- The type declarations of a file: those at the top and those in the body of one. All have a name. -/
inductive ParsedFile.Declares (f : ParsedFile) : TypeNode → Prop
  | top {i : Nat} {t : Tree} (child : f.root.children[i]? = some t) (named : t.isNamed) (declares : t.DeclaresType) :
      Declares f ⟨[i], t, []⟩
  | nested {p q : List Nat} {t u : Tree} {around : List Tree} (outer : Declares f ⟨p, t, around⟩)
      (inBody : t.InBody q u) (declares : u.DeclaresType) : Declares f ⟨p ++ q, u, t :: around⟩

/-! ### Their list -/

/-- The nodes in the first of some children and those in the others. -/
def numbered (first rest : List TypeNode) : List TypeNode := first.map (·.under [0]) ++ rest.map (·.next)

namespace Tree

mutual

def bodyTypes (around : List Tree) : List Tree → List TypeNode
  | [] => []
  | t :: ts =>
    if t.field = some "body" then numbered (insideTypes around t) [] else numbered [] (bodyTypes around ts)
termination_by structural ts => ts

def insideTypes (around : List Tree) : Tree → List TypeNode
  | ⟨_, _, _, _, _, children⟩ => memberTypes around children
termination_by structural t => t

def memberTypes (around : List Tree) : List Tree → List TypeNode
  | [] => []
  | t :: ts => numbered (typesAt around t) (memberTypes around ts)
termination_by structural ts => ts

def typesAt (around : List Tree) : Tree → List TypeNode
  | ⟨kind, isNamed, field, text, line, children⟩ =>
    let t : Tree := ⟨kind, isNamed, field, text, line, children⟩
    if !isNamed then []
    else if kind = .enumBodyDeclarations then memberTypes around children
    else if t.DeclaresType then ⟨[], t, around⟩ :: bodyTypes (t :: around) children
    else []
termination_by structural t => t

end

def typesFrom (around : List Tree) (t : Tree) : List TypeNode :=
  if t.DeclaresType then ⟨[], t, around⟩ :: bodyTypes (t :: around) t.children else []

theorem typesAt_eq (around : List Tree) (t : Tree) : typesAt around t =
    if !t.isNamed then [] else if t.kind = .enumBodyDeclarations then memberTypes around t.children
    else typesFrom around t := by
  obtain ⟨kind, isNamed, field, text, line, children⟩ := t
  rw [typesAt]
  rfl

theorem insideTypes_eq (around : List Tree) (t : Tree) : insideTypes around t = memberTypes around t.children := by
  obtain ⟨kind, isNamed, field, text, line, children⟩ := t
  rw [insideTypes]

end Tree

/-- The type nodes of a file in the order in which they are read. -/
def topTypes : List Tree → List TypeNode
  | [] => []
  | t :: ts => numbered (if t.isNamed then t.typesFrom [] else []) (topTypes ts)

section

variable {first rest ns : List TypeNode} {n : TypeNode} {around ts : List Tree} {t : Tree}

theorem mem_numbered : n ∈ numbered first rest ↔ (∃ m ∈ first, m.under [0] = n) ∨ ∃ m ∈ rest, m.next = n := by
  rw [numbered, List.mem_append, List.mem_map, List.mem_map]

/-- What is listed child by child comes from one of them. -/
theorem mem_numbered_iff {list : List Tree → List TypeNode} {part : Tree → List TypeNode} (nil : list [] = [])
    (cons : ∀ t ts, list (t :: ts) = numbered (part t) (list ts)) :
    n ∈ list ts ↔ ∃ i t m, ts[i]? = some t ∧ m ∈ part t ∧ n = m.under [i] := by
  induction ts generalizing n with
  | nil => simp [nil]
  | cons t ts ih =>
    rw [cons, mem_numbered]
    constructor
    · rintro (⟨m, hm, rfl⟩ | ⟨m', hm', rfl⟩)
      · exact ⟨0, t, m, rfl, hm, rfl⟩
      · obtain ⟨i, u, m, hu, hm, rfl⟩ := ih.mp hm'
        exact ⟨i + 1, u, m, hu, hm, rfl⟩
    · rintro ⟨_ | i, u, m, hu, hm, rfl⟩
      · exact .inl ⟨m, Option.some.inj hu ▸ hm, rfl⟩
      · exact .inr ⟨m.under [i], ih.mpr ⟨i, u, m, hu, hm, rfl⟩, rfl⟩

theorem mem_memberTypes : n ∈ Tree.memberTypes around ts ↔
    ∃ i t m, ts[i]? = some t ∧ m ∈ Tree.typesAt around t ∧ n = m.under [i] :=
  mem_numbered_iff (by rw [Tree.memberTypes]) fun t ts => by rw [Tree.memberTypes]

theorem mem_topTypes : n ∈ topTypes ts ↔ ∃ (i : Nat) (t : Tree) (m : TypeNode), ts[i]? = some t ∧
    m ∈ (if t.isNamed then t.typesFrom [] else []) ∧ n = m.under [i] :=
  mem_numbered_iff rfl fun _ _ => rfl

theorem mem_bodyTypes : n ∈ Tree.bodyTypes around ts ↔
    ∃ i b m, ts.findIdx? (·.field = some "body") = some i ∧ ts[i]? = some b ∧ m ∈ Tree.memberTypes around b.children ∧
      n = m.under [i] := by
  induction ts generalizing n with
  | nil => simp [Tree.bodyTypes]
  | cons t ts ih =>
    rw [Tree.bodyTypes, List.findIdx?_cons]
    by_cases body : t.field = some "body"
    · rw [if_pos body, if_pos (by simpa using body), mem_numbered, Tree.insideTypes_eq]
      constructor
      · rintro (⟨m, hm, rfl⟩ | ⟨m, hm, -⟩)
        · exact ⟨0, t, m, rfl, rfl, hm, rfl⟩
        · cases hm
      · rintro ⟨i, b, m, first, hb, hm, rfl⟩
        cases first
        cases hb
        exact .inl ⟨m, hm, rfl⟩
    · rw [if_neg body, if_neg (by simpa using body), mem_numbered]
      constructor
      · rintro (⟨m, hm, -⟩ | ⟨m', hm', rfl⟩)
        · cases hm
        · obtain ⟨i, b, m, first, hb, hm, rfl⟩ := ih.mp hm'
          exact ⟨i + 1, b, m, by rw [first]; rfl, hb, hm, rfl⟩
      · rintro ⟨j, b, m, first, hb, hm, rfl⟩
        obtain ⟨i, other, rfl⟩ := Option.map_eq_some_iff.mp first
        exact .inr ⟨m.under [i], ih.mpr ⟨i, b, m, other, hb, hm, rfl⟩, rfl⟩

/-! ### Every node once -/

namespace Tree

/-- A type node that is a type or stands in its body, seen from the type. -/
inductive Holds : (around : List Tree) → Tree → TypeNode → Prop
  | self {around : List Tree} {t : Tree} (declares : t.DeclaresType) : Holds around t ⟨[], t, around⟩
  | inside {around : List Tree} {t u : Tree} {p : List Nat} {n : TypeNode} (declares : t.DeclaresType)
      (inBody : t.InBody p u) (holds : Holds (t :: around) u n) : Holds around t (n.under p)

/-- A type node in one of the members among some children. -/
def MemberHolds (around ts : List Tree) (n : TypeNode) : Prop :=
  ∃ p u m, Member ts p u ∧ Holds around u m ∧ n = m.under p

theorem memberHolds_iff : MemberHolds around ts n ↔ ∃ i t m, ts[i]? = some t ∧ t.isNamed ∧
    (Holds around t m ∨ t.kind = .enumBodyDeclarations ∧ MemberHolds around t.children m) ∧ n = m.under [i] := by
  constructor
  · rintro ⟨p, u, m, member, holds, rfl⟩
    cases member with
    | direct child named => exact ⟨_, u, m, child, named, .inl holds, rfl⟩
    | constants child named kind member =>
      exact ⟨_, _, m.under _, child, named, .inr ⟨kind, _, u, m, member, holds, rfl⟩, rfl⟩
  · rintro ⟨i, t, m, child, named, holds | ⟨kind, p, u, m, member, holds, rfl⟩, rfl⟩
    · exact ⟨[i], t, m, .direct child named, holds, rfl⟩
    · exact ⟨i :: p, u, m, .constants child named kind member, holds, rfl⟩

theorem holds_iff : Holds around t n ↔ t.DeclaresType ∧ (n = ⟨[], t, around⟩ ∨
    ∃ i b m, t.children.findIdx? (·.field = some "body") = some i ∧ t.children[i]? = some b ∧
      MemberHolds (t :: around) b.children m ∧ n = m.under [i]) := by
  constructor
  · rintro (declares | ⟨declares, ⟨first, child, member⟩, holds⟩)
    · exact ⟨declares, .inl rfl⟩
    · exact ⟨declares, .inr ⟨_, _, _, first, child, ⟨_, _, _, member, holds, rfl⟩, rfl⟩⟩
  · rintro ⟨declares, rfl | ⟨i, b, m, first, child, ⟨p, u, m, member, holds, rfl⟩, rfl⟩⟩
    · exact .self declares
    · have inside : Holds around t (m.under (i :: p)) := .inside declares (.intro first child member) holds
      exact inside

theorem not_declaresType (kind : t.kind = .enumBodyDeclarations) : ¬ t.DeclaresType := by
  simp [DeclaresType, kind, NodeKind.typeKind?]

/-- The nodes listed for a child are the type nodes that it holds, by itself or in the place of its members. -/
theorem mem_typesAt (around : List Tree) (t : Tree) (n : TypeNode) : n ∈ typesAt around t ↔
    t.isNamed ∧ (Holds around t n ∨ t.kind = .enumBodyDeclarations ∧ MemberHolds around t.children n) := by
  have members (around : List Tree) (u : Tree) (le : sizeOf u ≤ sizeOf t) (n : TypeNode) :
      n ∈ memberTypes around u.children ↔ MemberHolds around u.children n := by
    rw [mem_memberTypes, memberHolds_iff]
    constructor
    · rintro ⟨i, c, m, hc, hm, rfl⟩
      have := sizeOf_lt_of_mem_children (List.mem_of_getElem? hc)
      obtain ⟨named, holds⟩ := (mem_typesAt around c m).mp hm
      exact ⟨i, c, m, hc, named, holds, rfl⟩
    · rintro ⟨i, c, m, hc, named, holds, rfl⟩
      have := sizeOf_lt_of_mem_children (List.mem_of_getElem? hc)
      exact ⟨i, c, m, hc, (mem_typesAt around c m).mpr ⟨named, holds⟩, rfl⟩
  -- so much for the recursion, on the size of the node: members of a node and of its body are smaller
  rw [typesAt_eq]
  by_cases named : t.isNamed = true
  · by_cases kind : t.kind = .enumBodyDeclarations
    · simp [named, kind, members around t (Nat.le_refl _), holds_iff, not_declaresType kind]
    · rw [if_neg (by simp [named]), if_neg kind, typesFrom]
      by_cases declares : t.DeclaresType
      · rw [if_pos declares, List.mem_cons, mem_bodyTypes, holds_iff]
        constructor
        · rintro (rfl | ⟨i, b, m, first, child, hm, rfl⟩)
          · exact ⟨named, .inl ⟨declares, .inl rfl⟩⟩
          · have := sizeOf_lt_of_mem_children (List.mem_of_getElem? child)
            have holds := (members (t :: around) b (Nat.le_of_lt this) m).mp hm
            exact ⟨named, .inl ⟨declares, .inr ⟨i, b, m, first, child, holds, rfl⟩⟩⟩
        · rintro ⟨-, ⟨-, rfl | ⟨i, b, m, first, child, holds, rfl⟩⟩ | ⟨other, -⟩⟩
          · exact .inl rfl
          · have := sizeOf_lt_of_mem_children (List.mem_of_getElem? child)
            exact .inr ⟨i, b, m, first, child, (members (t :: around) b (Nat.le_of_lt this) m).mpr holds, rfl⟩
          · exact absurd other kind
      · simp [declares, kind, holds_iff]
  · simp [named]
termination_by sizeOf t

theorem mem_typesFrom (named : t.isNamed = true) : n ∈ typesFrom around t ↔ Holds around t n := by
  by_cases kind : t.kind = .enumBodyDeclarations
  · simp [typesFrom, holds_iff, not_declaresType kind]
  · have h := mem_typesAt around t n
    rwa [typesAt_eq, if_neg (by simp [named]), if_neg kind, and_iff_right named, or_iff_left fun h => kind h.1] at h

theorem Holds.append {p : List Nat} {u : Tree} (holds : Holds around t n) (inBody : n.node.InBody p u)
    (declares : u.DeclaresType) : Holds around t ⟨n.position ++ p, u, n.types⟩ := by
  induction holds with
  | @self around t outer =>
    have inside : Holds around t (TypeNode.under p ⟨[], u, t :: around⟩) := .inside outer inBody (.self declares)
    rwa [TypeNode.under, List.append_nil] at inside
  | @inside _ _ _ q m outer within _ ih =>
    have inside := Holds.inside outer within (ih inBody)
    rwa [TypeNode.under, ← List.append_assoc] at inside

end Tree

theorem ParsedFile.Declares.append {f : ParsedFile} {p : List Nat} (holds : Tree.Holds around t n)
    (outer : t.DeclaresType → f.Declares ⟨p, t, around⟩) : f.Declares (n.under p) := by
  induction holds generalizing p with
  | self declares =>
    rw [TypeNode.under, List.append_nil]
    exact outer declares
  | @inside _ _ _ q m declares inBody _ ih =>
    have inside := ih fun inner => .nested (outer declares) inBody inner
    rwa [TypeNode.under, List.append_assoc] at inside

theorem ParsedFile.declares_iff {f : ParsedFile} : f.Declares n ↔ ∃ (i : Nat) (t : Tree) (m : TypeNode),
    f.root.children[i]? = some t ∧ t.isNamed ∧ Tree.Holds [] t m ∧ n = m.under [i] := by
  constructor
  · intro h
    induction h with
    | @top i t child named declares => exact ⟨i, t, ⟨[], t, []⟩, child, named, .self declares, rfl⟩
    | nested outer inBody declares ih =>
      obtain ⟨i, t, ⟨q, v, around⟩, child, named, holds, eq⟩ := ih
      cases eq
      exact ⟨i, t, _, child, named, holds.append inBody declares, by simp [TypeNode.under, TypeNode.types]⟩
  · rintro ⟨i, t, m, child, named, holds, rfl⟩
    exact .append holds fun declares => .top child named declares

theorem ParsedFile.mem_types {f : ParsedFile} : n ∈ topTypes f.root.children ↔ f.Declares n := by
  rw [mem_topTypes, declares_iff]
  constructor
  · rintro ⟨i, t, m, child, hm, rfl⟩
    split at hm
    · rename_i named
      exact ⟨i, t, m, child, named, (Tree.mem_typesFrom named).mp hm, rfl⟩
    · cases hm
  · rintro ⟨i, t, m, child, named, holds, rfl⟩
    exact ⟨i, t, m, child, by rwa [if_pos named, Tree.mem_typesFrom named], rfl⟩

/-! ### Ascending positions -/

/-- Positions in the order in which a walk comes to them that visits a node before its children. -/
def Ascending (ns : List TypeNode) : Prop := ns.Pairwise fun m n => m.position < n.position

def Below (ns : List TypeNode) : Prop := ∀ n ∈ ns, n.position ≠ []

theorem ascending_numbered (h : Ascending first) (below : Below rest) (h' : Ascending rest) :
    Ascending (numbered first rest) := by
  refine List.pairwise_append.mpr ⟨List.pairwise_map.mpr (h.imp ?_), List.pairwise_map.mpr (h'.imp_of_mem ?_), ?_⟩
  · intro m n lt
    exact List.append_left_lt lt
  · intro m n hm hn lt
    obtain ⟨i, p, hp⟩ := List.exists_cons_of_ne_nil (below m hm)
    obtain ⟨j, q, hq⟩ := List.exists_cons_of_ne_nil (below n hn)
    rw [hp, hq, List.cons_lt_cons_iff] at lt
    simpa only [TypeNode.next, hp, hq, List.modifyHead_cons, List.cons_lt_cons_iff, Nat.add_lt_add_iff_right,
      Nat.add_right_cancel_iff] using lt
  · intro m' hm n' hn
    obtain ⟨m, -, rfl⟩ := List.mem_map.mp hm
    obtain ⟨n, later, rfl⟩ := List.mem_map.mp hn
    obtain ⟨j, q, hq⟩ := List.exists_cons_of_ne_nil (below n later)
    simp [TypeNode.under, TypeNode.next, hq, List.cons_lt_cons_iff]

end

namespace Tree

theorem below_memberTypes (around : List Tree) (ts : List Tree) : Below (memberTypes around ts) := by
  intro n hn
  obtain ⟨i, t, m, -, -, rfl⟩ := mem_memberTypes.mp hn
  exact List.cons_ne_nil _ _

theorem below_bodyTypes (around : List Tree) (ts : List Tree) : Below (bodyTypes around ts) := by
  intro n hn
  obtain ⟨i, b, m, -, -, -, rfl⟩ := mem_bodyTypes.mp hn
  exact List.cons_ne_nil _ _

theorem ascending_cons {n : TypeNode} {ns : List TypeNode} (root : n.position = []) (below : Below ns)
    (h : Ascending ns) : Ascending (n :: ns) := by
  refine List.pairwise_cons.mpr ⟨fun m hm => ?_, h⟩
  obtain ⟨i, p, hp⟩ := List.exists_cons_of_ne_nil (below m hm)
  rw [root, hp]
  exact List.nil_lt_cons i p

mutual

theorem ascending_bodyTypes (around : List Tree) : (ts : List Tree) → Ascending (bodyTypes around ts)
  | [] => .nil
  | t :: ts => by
    rw [bodyTypes]
    split
    · exact ascending_numbered (ascending_insideTypes around t) nofun .nil
    · exact ascending_numbered .nil (below_bodyTypes around ts) (ascending_bodyTypes around ts)
termination_by structural ts => ts

theorem ascending_insideTypes (around : List Tree) : (t : Tree) → Ascending (insideTypes around t)
  | ⟨_, _, _, _, _, children⟩ => ascending_memberTypes around children
termination_by structural t => t

theorem ascending_memberTypes (around : List Tree) : (ts : List Tree) → Ascending (memberTypes around ts)
  | [] => .nil
  | t :: ts => by
    rw [memberTypes]
    have rest := ascending_memberTypes around ts
    exact ascending_numbered (ascending_typesAt around t) (below_memberTypes around ts) rest
termination_by structural ts => ts

theorem ascending_typesAt (around : List Tree) : (t : Tree) → Ascending (typesAt around t)
  | ⟨kind, isNamed, field, text, line, children⟩ => by
    rw [typesAt]
    split
    · exact .nil
    · split
      · exact ascending_memberTypes around children
      · split
        · exact ascending_cons rfl (below_bodyTypes _ children) (ascending_bodyTypes _ children)
        · exact .nil
termination_by structural t => t

end

theorem ascending_typesFrom (around : List Tree) (t : Tree) : Ascending (typesFrom around t) := by
  unfold typesFrom
  split
  · exact ascending_cons rfl (below_bodyTypes _ _) (ascending_bodyTypes _ _)
  · exact .nil

end Tree

theorem ascending_topTypes (ts : List Tree) : Ascending (topTypes ts) := by
  induction ts with
  | nil => exact .nil
  | cons t ts ih =>
    refine ascending_numbered ?_ ?_ ih
    · split
      · exact t.ascending_typesFrom []
      · exact .nil
    · intro n hn
      obtain ⟨i, u, m, -, -, rfl⟩ := mem_topTypes.mp hn
      exact List.cons_ne_nil _ _

end TypeAtlas.Syntax
