import TypeAtlas.Proofs.Syntax.Declarations

/-! How the types of a file are nested. The outline of a file says by names alone which types it declares
and which of them stand in the body of which; a reading that succeeds gives one declaration for every
type of the outline, outer ones before those nested in them. -/

namespace TypeAtlas

/-- Types with those in their bodies, in the order in which they are declared. -/
inductive Forest (α : Type)
  | nil
  | cons (type : α) (members rest : Forest α)
  deriving DecidableEq, Repr

namespace Forest

variable {α β : Type}

def append : Forest α → Forest α → Forest α
  | nil, g => g
  | cons a members rest, g => cons a members (rest.append g)

def map (f : α → β) : Forest α → Forest β
  | nil => nil
  | cons a members rest => cons (f a) (members.map f) (rest.map f)

/-- All types, outer ones before those nested in them. -/
def types : Forest α → List α
  | nil => []
  | cons a members rest => a :: (members.types ++ rest.types)

/-- A type that stands in no other, with all types before it. -/
inductive Root : Forest α → List α → α → Prop
  | first (a : α) (members rest : Forest α) : Root (cons a members rest) [] a
  | later (a : α) (members : Forest α) {rest : Forest α} {pre : List α} {d : α} (h : Root rest pre d) :
      Root (cons a members rest) (a :: (members.types ++ pre)) d

/-- A type `d` directly in the body of a type `e`, with all types before `e` and those between the two. -/
inductive InBody : Forest α → List α → α → List α → α → Prop
  | first {members : Forest α} (rest : Forest α) {mid : List α} {e d : α} (h : Root members mid d) :
      InBody (cons e members rest) [] e mid d
  | inside (a : α) {members : Forest α} (rest : Forest α) {pre mid : List α} {e d : α}
      (h : InBody members pre e mid d) : InBody (cons a members rest) (a :: pre) e mid d
  | later (a : α) (members : Forest α) {rest : Forest α} {pre mid : List α} {e d : α}
      (h : InBody rest pre e mid d) : InBody (cons a members rest) (a :: (members.types ++ pre)) e mid d

variable {f g : Forest α} {pre pre' mid mid' post : List α} {d d' e e' : α}

theorem types_append : (f.append g).types = f.types ++ g.types := by
  induction f with
  | nil => rfl
  | cons a members rest _ ih => rw [append, types, ih, types, List.cons_append, List.append_assoc]

theorem map_append (h : α → β) : (f.append g).map h = (f.map h).append (g.map h) := by
  induction f with
  | nil => rfl
  | cons a members rest _ ih => rw [append, map, ih, map, append]

theorem types_map (h : α → β) : (f.map h).types = f.types.map h := by
  induction f with
  | nil => rfl
  | cons a members rest ihm ihr => rw [map, types, ihm, ihr, types, List.map_cons, List.map_append]

theorem Root.types_eq (h : Root f pre d) : ∃ post, f.types = pre ++ d :: post := by
  induction h with
  | first a members rest => exact ⟨_, rfl⟩
  | later a members h ih =>
    obtain ⟨post, h⟩ := ih
    exact ⟨post, by rw [types, h, List.cons_append, List.append_assoc]⟩

theorem InBody.types_eq (h : InBody f pre e mid d) : ∃ post, f.types = pre ++ e :: (mid ++ d :: post) := by
  induction h with
  | first rest h =>
    obtain ⟨post, h⟩ := h.types_eq
    exact ⟨post ++ rest.types, by rw [types, h, List.append_assoc]; rfl⟩
  | @inside a members rest _ _ _ _ _ ih =>
    obtain ⟨post, h⟩ := ih
    exact ⟨post ++ rest.types, by rw [types, h]; simp⟩
  | later a members h ih =>
    obtain ⟨post, h⟩ := ih
    exact ⟨post, by rw [types, h, List.cons_append, List.append_assoc]⟩

theorem Root.length_lt (h : Root f pre d) : pre.length < f.types.length := by
  obtain ⟨post, eq⟩ := h.types_eq
  simp [eq]

theorem InBody.length_lt (h : InBody f pre e mid d) : (pre ++ e :: mid).length < f.types.length := by
  obtain ⟨post, eq⟩ := h.types_eq
  simp only [eq, List.length_append, List.length_cons]
  omega

/-- Every type stands in the body of one before it, or in none. -/
theorem root_or_inBody (h : f.types = pre ++ d :: post) :
    Root f pre d ∨ ∃ before e mid, pre = before ++ e :: mid ∧ InBody f before e mid d := by
  induction f generalizing pre post with
  | nil => simp [types] at h
  | cons a members rest ihm ihr =>
    rcases pre with _ | ⟨b, pre⟩
    · cases h
      exact .inl (.first _ _ _)
    rw [types, List.cons_append] at h
    obtain ⟨rfl, eq⟩ := List.cons.inj h
    rcases List.append_eq_append_iff.mp eq with ⟨before, rfl, hr⟩ | ⟨after, hm, hr⟩
    · rcases ihr hr with root | ⟨before', e, mid, rfl, inBody⟩
      · exact .inl (.later a members root)
      · exact .inr ⟨a :: (members.types ++ before'), e, mid, by simp, .later a members inBody⟩
    rcases after with _ | ⟨b, after⟩
    · -- the type is the first after all members
      rw [List.append_nil] at hm
      subst hm
      have first : rest.types = [] ++ d :: post := hr.symm
      rcases ihr first with root | ⟨before, e, mid, hb, -⟩
      · exact .inl (by simpa using Root.later a members root)
      · simp at hb
    · obtain ⟨rfl, -⟩ := List.cons.inj hr
      rcases ihm hm with root | ⟨before, e, mid, rfl, inBody⟩
      · exact .inr ⟨[], a, pre, rfl, .first rest root⟩
      · exact .inr ⟨a :: before, e, mid, rfl, .inside a rest inBody⟩

theorem Root.map (h : α → β) (root : Root f pre d) : Root (f.map h) (pre.map h) (h d) := by
  induction root with
  | first => exact .first _ _ _
  | later a members _ ih =>
    rw [List.map_cons, List.map_append, ← types_map]
    exact .later _ _ ih

theorem InBody.map (h : α → β) (inBody : InBody f pre e mid d) :
    InBody (f.map h) (pre.map h) (h e) (mid.map h) (h d) := by
  induction inBody with
  | first _ root => exact .first _ (root.map h)
  | inside _ _ _ ih => exact .inside _ _ ih
  | later a members _ ih =>
    rw [List.map_cons, List.map_append, ← types_map]
    exact .later _ _ ih

theorem exists_root_of_map {h : α → β} {bs : List β} {b : β} (root : Root (f.map h) bs b) :
    ∃ pre d, Root f pre d ∧ pre.map h = bs ∧ h d = b := by
  induction f generalizing bs with
  | nil => cases root
  | cons a members rest _ ih =>
    cases root with
    | first => exact ⟨[], a, .first _ _ _, rfl, rfl⟩
    | later _ _ root =>
      obtain ⟨pre, d, root', rfl, rfl⟩ := ih root
      exact ⟨_, d, .later a members root', by rw [types_map, List.map_cons, List.map_append], rfl⟩

theorem exists_inBody_of_map {h : α → β} {bs cs : List β} {b c : β} (inBody : InBody (f.map h) bs b cs c) :
    ∃ pre e mid d, InBody f pre e mid d ∧ pre.map h = bs ∧ h e = b ∧ mid.map h = cs ∧ h d = c := by
  induction f generalizing bs with
  | nil => cases inBody
  | cons a members rest ihm ihr =>
    cases inBody with
    | first _ root =>
      obtain ⟨mid, d, root', rfl, rfl⟩ := exists_root_of_map root
      exact ⟨[], a, mid, d, .first rest root', rfl, rfl, rfl, rfl⟩
    | inside _ _ inBody =>
      obtain ⟨pre, e, mid, d, inBody', rfl, rfl, rfl, rfl⟩ := ihm inBody
      exact ⟨a :: pre, e, mid, d, .inside a rest inBody', rfl, rfl, rfl, rfl⟩
    | later _ _ inBody =>
      obtain ⟨pre, e, mid, d, inBody', rfl, rfl, rfl, rfl⟩ := ihr inBody
      exact ⟨_, e, mid, d, .later a members inBody', by rw [types_map, List.map_cons, List.map_append], rfl, rfl, rfl⟩

theorem ne_append_of_length_lt {as bs cs : List α} (h : as.length < bs.length) : as ≠ bs ++ cs := by
  rintro rfl
  rw [List.length_append] at h
  omega

theorem Root.not_inBody (h : Root f pre d) (h' : InBody f pre' e' mid' d') : pre ≠ pre' ++ e' :: mid' := by
  induction h generalizing pre' with
  | first a members rest => exact (List.append_ne_nil_of_right_ne_nil _ (List.cons_ne_nil _ _)).symm
  | later a members h ih =>
    intro same
    cases h' with
    | first _ root => exact ne_append_of_length_lt root.length_lt (List.cons.inj same).2.symm
    | inside _ _ inBody => exact ne_append_of_length_lt inBody.length_lt (List.cons.inj same).2.symm
    | later _ _ inBody =>
      exact ih inBody (List.append_cancel_left ((List.cons.inj same).2.trans (List.append_assoc _ _ _)))

/-- A type stands in one body only. -/
theorem InBody.unique (h : InBody f pre e mid d) (h' : InBody f pre' e' mid' d')
    (same : pre ++ e :: mid = pre' ++ e' :: mid') : pre = pre' := by
  -- what stands in the members of a type ends before what follows the type
  induction h generalizing pre' with
  | first rest root =>
    cases h' with
    | first => rfl
    | inside _ _ inBody => exact absurd (List.cons.inj same).2 (root.not_inBody inBody)
    | later _ _ inBody =>
      exact absurd ((List.cons.inj same).2.trans (List.append_assoc _ _ _)) (ne_append_of_length_lt root.length_lt)
  | inside a rest inBody ih =>
    cases h' with
    | first _ root => exact absurd (List.cons.inj same).2.symm (root.not_inBody inBody)
    | inside _ _ inBody' => rw [ih inBody' (List.cons.inj same).2]
    | later _ _ inBody' =>
      exact absurd ((List.cons.inj same).2.trans (List.append_assoc _ _ _)) (ne_append_of_length_lt inBody.length_lt)
  | later a members inBody ih =>
    cases h' with
    | first _ root =>
      exact absurd ((List.cons.inj same).2.symm.trans (List.append_assoc _ _ _)) (ne_append_of_length_lt root.length_lt)
    | inside _ _ inBody' =>
      exact absurd ((List.cons.inj same).2.symm.trans (List.append_assoc _ _ _))
        (ne_append_of_length_lt inBody'.length_lt)
    | later _ _ inBody' =>
      have eq := (List.append_assoc _ _ _).symm.trans ((List.cons.inj same).2.trans (List.append_assoc _ _ _))
      rw [ih inBody' (List.append_cancel_left eq)]

/-! ### Forests of declarations -/

/-- A declaration with this outer type, which its name begins with. -/
structure Within (outer : Option String) (d : Declaration) : Prop where
  outer_eq : d.outer = outer
  name_ne : d.name ≠ ""
  qualified : ∀ o, outer = some o → ∃ n, n ≠ "" ∧ d.name = Text.qualify o n

/-- Each declaration has that around it as its outer type, and those that stand in no other have `outer`. -/
def Placed : Option String → Forest Declaration → Prop
  | _, nil => True
  | outer, cons d members rest => Within outer d ∧ members.Placed (some d.name) ∧ rest.Placed outer

section Placed

variable {outer : Option String} {owner : String} {ds es : Forest Declaration} {t u : Declaration}
  {before between : List Declaration}

theorem Placed.append (h : ds.Placed outer) (h' : es.Placed outer) : (ds.append es).Placed outer := by
  induction ds with
  | nil => exact h'
  | cons d members rest _ ih => exact ⟨h.1, h.2.1, ih h.2.2⟩

theorem Placed.root (h : ds.Placed outer) (root : Root ds before t) : Within outer t := by
  induction root with
  | first => exact h.1
  | later _ _ _ ih => exact ih h.2.2

theorem Placed.inBody (h : ds.Placed outer) (inBody : InBody ds before t between u) :
    t.name ≠ "" ∧ Within (some t.name) u := by
  induction inBody generalizing outer with
  | first _ root => exact ⟨h.1.name_ne, h.2.1.root root⟩
  | inside _ _ _ ih => exact ih h.2.1
  | later _ _ _ ih => exact ih h.2.2

theorem Within.length_lt (h : Within (some owner) t) : owner.toList.length < t.name.toList.length := by
  obtain ⟨n, ne, name⟩ := h.qualified owner rfl
  rw [name, Text.qualify]
  split
  · rename_i empty
    rw [empty]
    exact List.length_pos_iff.mpr (mt String.toList_eq_nil_iff.mp ne)
  · simp

/-- What is nested in a type, at any depth, has a longer name. -/
theorem Placed.length_lt (h : ds.Placed (some owner)) : ∀ d ∈ ds.types, owner.toList.length < d.name.toList.length := by
  induction ds generalizing owner with
  | nil => exact fun d hd => absurd hd List.not_mem_nil
  | cons d members rest ihm ihr =>
    intro e he
    rcases List.mem_cons.mp he with rfl | he
    · exact h.1.length_lt
    · exact (List.mem_append.mp he).elim (fun he => Nat.lt_trans h.1.length_lt (ihm h.2.1 e he)) (ihr h.2.2 e)

/-- All that stands between a type and a member type of it has a longer name than the type. -/
theorem Placed.length_lt_between (h : ds.Placed outer) (inBody : InBody ds before t between u) :
    ∀ d ∈ between, t.name.toList.length < d.name.toList.length := by
  induction inBody generalizing outer with
  | first _ root =>
    obtain ⟨post, eq⟩ := root.types_eq
    exact fun d hd => h.2.1.length_lt d (eq ▸ List.mem_append_left _ hd)
  | inside _ _ _ ih => exact ih h.2.1
  | later _ _ _ ih => exact ih h.2.2

end Placed
end Forest

namespace Syntax

namespace Tree

mutual

/-- The types in the first child known as body, qualified by the name of the type around them. -/
def outlineBody (owner : String) : List Tree → Forest String
  | [] => .nil
  | t :: ts => if t.field = some "body" then outlineInside owner t else outlineBody owner ts
termination_by structural ts => ts

def outlineInside (owner : String) : Tree → Forest String
  | ⟨_, _, _, _, _, children⟩ => outlineMembers owner children
termination_by structural t => t

def outlineMembers (owner : String) : List Tree → Forest String
  | [] => .nil
  | t :: ts => (outlineMember owner t).append (outlineMembers owner ts)
termination_by structural ts => ts

def outlineMember (owner : String) : Tree → Forest String
  | ⟨kind, isNamed, field, text, line, children⟩ =>
    let t : Tree := ⟨kind, isNamed, field, text, line, children⟩
    let name := Text.qualify owner t.nameText
    if !isNamed then .nil
    else if kind = .enumBodyDeclarations then outlineMembers owner children
    else if kind.typeKind?.isNone || t.nameText = "" then .nil
    else .cons name (outlineBody name children) .nil
termination_by structural t => t

end

def outlineType (package : String) (t : Tree) : Forest String :=
  if t.nameText = "" then .nil
  else .cons (Text.qualify package t.nameText) (outlineBody (Text.qualify package t.nameText) t.children) .nil

end Tree

/-- The types of a file by their names, each qualified by the package declared before it. -/
def outlineTop : (package : String) → List Tree → Forest String
  | _, [] => .nil
  | package, t :: ts =>
    if t.kind = .packageDeclaration then outlineTop t.packageName ts
    else if t.kind.typeKind?.isSome then (t.outlineType package).append (outlineTop package ts)
    else outlineTop package ts

def ParsedFile.outline (f : ParsedFile) : Forest String := outlineTop "" f.root.namedChildren

/-! ### Reading -/

def Outlined (path outer : Option String) (names : Forest String) (ds : List Declaration) : Prop :=
  ∃ f : Forest Declaration, f.map (·.name) = names ∧ f.Placed outer ∧ f.types = ds ∧
    ∀ d ∈ ds, d.sourceFile = path.filter (· ≠ "")

variable {path outer : Option String} {names names' : Forest String} {ds ds' : List Declaration} {d : Declaration}
  {s s' : List Warning} {m m' : Members} {o : Owner}

namespace Outlined

theorem nil : Outlined path outer .nil [] := ⟨.nil, rfl, trivial, rfl, nofun⟩

theorem append (h : Outlined path outer names ds) (h' : Outlined path outer names' ds') :
    Outlined path outer (names.append names') (ds ++ ds') := by
  obtain ⟨f, rfl, placed, rfl, files⟩ := h
  obtain ⟨g, rfl, placed', rfl, files'⟩ := h'
  refine ⟨f.append g, Forest.map_append _, placed.append placed', Forest.types_append, fun d hd => ?_⟩
  exact (List.mem_append.mp hd).elim (files d) (files' d)

/-- A type that is closed gives itself and what was read in its body. -/
theorem close (within : Forest.Within outer d) (file : d.sourceFile = path.filter (· ≠ ""))
    (h : Outlined path (some d.name) names m.nested) : Outlined path outer (.cons d.name names .nil) (m.close d) := by
  obtain ⟨f, rfl, placed, types, files⟩ := h
  refine ⟨.cons { d with fields := m.fields, methods := m.methods } f .nil, rfl, ?_, ?_, fun e he => ?_⟩
  · exact ⟨⟨within.outer_eq, within.name_ne, within.qualified⟩, placed, trivial⟩
  · rw [Forest.types, types, Forest.types, List.append_nil]
    rfl
  · rcases List.mem_cons.mp he with rfl | he
    · exact file
    · exact files e he

end Outlined

/-- The latter members have these types in addition. -/
def Nests (owner : String) (path : Option String) (names : Forest String) (m m' : Members) : Prop :=
  ∃ ds, m'.nested = m.nested ++ ds ∧ Outlined path (some owner) names ds

theorem Nests.refl (owner : String) (path : Option String) (m : Members) : Nests owner path .nil m m :=
  ⟨[], (List.append_nil _).symm, .nil⟩

theorem Nests.trans {owner : String} {m₁ m₂ m₃ : Members} (h : Nests owner path names m₁ m₂)
    (h' : Nests owner path names' m₂ m₃) : Nests owner path (names.append names') m₁ m₃ := by
  obtain ⟨ds, eq, outlined⟩ := h
  obtain ⟨ds', eq', outlined'⟩ := h'
  exact ⟨ds ++ ds', by rw [eq', eq, List.append_assoc], outlined.append outlined'⟩

/-- Members that are only given fields or methods. -/
theorem nested_of_bind {α : Type} {x : Warned α} {f : α → Members} (h : Gives (x >>= fun a => pure (f a)) s m' s')
    (hf : ∀ a, (f a).nested = m.nested) : m'.nested = m.nested ++ [] := by
  obtain ⟨a, s₁, -, h⟩ := gives_bind.mp h
  obtain ⟨rfl, -⟩ := gives_pure.mp h
  rw [hf, List.append_nil]

theorem nests_of_bind {α : Type} {owner : String} {x : Warned α} {f : α → Members}
    (h : Gives (x >>= fun a => pure (f a)) s m' s') (hf : ∀ a, (f a).nested = m.nested) :
    Nests owner path .nil m m' := ⟨[], nested_of_bind h hf, .nil⟩

theorem qualify_ne_empty (owner : String) {name : String} (h : name ≠ "") : Text.qualify owner name ≠ "" := by
  unfold Text.qualify
  split
  · exact h
  · rw [Ne, ← String.toList_inj]
    simp

theorem nameless_of_openType {p : Place} {kind : TypeKind} {t : Tree} (h : Gives (t.openType p kind) s none s') :
    t.nameText = "" := by
  unfold Tree.openType at h
  split at h
  · assumption
  · obtain ⟨d', s₁, hd, h⟩ := gives_bind.mp h
    cases (gives_pure.mp h).1

/-- A type with a name, closed over what was read in its body. -/
theorem outlined_of_openType {p : Place} {kind : TypeKind} {t : Tree} {ts : List Tree} {fields : List FieldDecl}
    (h : Gives (t.openType p kind) s (some (d, o)) s') (qualified : ∀ q, p.outer = some q → p.owner = q)
    (body : Nests o.name o.place.path (Tree.outlineBody o.name ts) { fields := fields } m) :
    Outlined p.path p.outer (.cons (Text.qualify p.owner t.nameText)
      (Tree.outlineBody (Text.qualify p.owner t.nameText) ts) .nil) (m.close d) := by
  obtain ⟨ne, head, rfl⟩ := gives_openType h
  have ofHead := headOf_of_declarationHead head
  have name := ofHead.name_eq
  obtain ⟨ds, nested, outlined⟩ := body
  rw [owner_of_openType h] at outlined
  rw [← name]
  refine .close ⟨ofHead.outer_eq, name ▸ qualify_ne_empty _ ne, fun q hq => ⟨t.nameText, ne, ?_⟩⟩ ofHead.sourceFile_eq ?_
  · rw [name, qualified q hq]
  · rw [nested]
    exact outlined

namespace Tree

mutual

theorem readBody_nests (o : Owner) (m : Members) : (ts : List Tree) → {s s' : List Warning} → {m' : Members} →
    Gives (readBody o m ts) s m' s' → Nests o.name o.place.path (outlineBody o.name ts) m m'
  | [], s, s', m', h => by
    rw [readBody, gives_pure] at h
    exact h.1 ▸ .refl _ _ _
  | t :: ts, s, s', m', h => by
    rw [readBody] at h
    rw [outlineBody]
    split at h
    · rename_i body
      rw [if_pos body]
      exact readInside_nests o m t h
    · rename_i other
      rw [if_neg other]
      exact readBody_nests o m ts h

theorem readInside_nests (o : Owner) (m : Members) : (t : Tree) → {s s' : List Warning} → {m' : Members} →
    Gives (readInside o m t) s m' s' → Nests o.name o.place.path (outlineInside o.name t) m m'
  | ⟨_, _, _, _, _, children⟩, _, _, _, h => readMembers_nests o m children h

theorem readMembers_nests (o : Owner) (m : Members) : (ts : List Tree) → {s s' : List Warning} → {m' : Members} →
    Gives (readMembers o m ts) s m' s' → Nests o.name o.place.path (outlineMembers o.name ts) m m'
  | [], s, s', m', h => by
    rw [readMembers, gives_pure] at h
    exact h.1 ▸ .refl _ _ _
  | t :: ts, s, s', m', h => by
    rw [readMembers] at h
    obtain ⟨m₁, s₁, h₁, h₂⟩ := gives_bind.mp h
    exact (readMember_nests o m t h₁).trans (readMembers_nests o m₁ ts h₂)

theorem readMember_nests (o : Owner) (m : Members) : (t : Tree) → {s s' : List Warning} → {m' : Members} →
    Gives (readMember o m t) s m' s' → Nests o.name o.place.path (outlineMember o.name t) m m'
  | ⟨kind, isNamed, field, text, line, children⟩, s, s', m', h => by
    unfold readMember at h
    unfold outlineMember
    dsimp only at h ⊢
    split at h
    · rename_i unnamed
      rw [if_pos unnamed]
      exact (gives_pure.mp h).1 ▸ .refl _ _ _
    · rename_i isNamed
      rw [if_neg isNamed]
      split at h
      · exact (gives_pure.mp h).1 ▸ .refl _ _ _
      · exact readMembers_nests o m children h
      -- fields, methods and constructors
      · exact nests_of_bind h fun _ => rfl
      · exact nests_of_bind h fun _ => rfl
      · exact nests_of_bind h fun _ => rfl
      · exact nests_of_bind h fun _ => rfl
      · exact nests_of_bind h fun _ => rfl
      · exact nests_of_bind h fun _ => rfl
      · rename_i other _ _ _ _ _ _
        rw [if_neg other]
        split at h
        · rename_i type
          rw [if_pos (by simp [type])]
          exact (gives_pure.mp h).1 ▸ .refl _ _ _
        · rename_i typeKind type
          obtain ⟨opened, s₁, ho, h⟩ := gives_bind.mp h
          cases opened with
          | none =>
            rw [if_pos (by simp [nameless_of_openType ho])]
            exact (gives_pure.mp h).1 ▸ .refl _ _ _
          | some opened =>
            obtain ⟨d, inner⟩ := opened
            obtain ⟨body, s₂, hb, h⟩ := gives_bind.mp h
            obtain ⟨rfl, -⟩ := gives_pure.mp h
            rw [if_neg (by simp [type, (gives_openType ho).1])]
            have nests := readBody_nests inner { fields := d.fields } children hb
            exact ⟨body.close d, rfl, outlined_of_openType ho (fun q hq => Option.some.inj hq) nests⟩

end

theorem outlined_of_readType {p : Place} {kind : TypeKind} {t : Tree} (h : Gives (t.readType p kind) s ds s')
    (qualified : ∀ q, p.outer = some q → p.owner = q) : Outlined p.path p.outer (t.outlineType p.owner) ds := by
  unfold readType at h
  unfold outlineType
  obtain ⟨opened, s₁, ho, h⟩ := gives_bind.mp h
  cases opened with
  | none =>
    obtain ⟨rfl, -⟩ := gives_pure.mp h
    rw [if_pos (nameless_of_openType ho)]
    exact .nil
  | some opened =>
    obtain ⟨d, inner⟩ := opened
    obtain ⟨body, s₂, hb, h⟩ := gives_bind.mp h
    obtain ⟨rfl, -⟩ := gives_pure.mp h
    rw [if_neg (gives_openType ho).1]
    exact outlined_of_openType ho qualified (readBody_nests inner { fields := d.fields } t.children hb)

end Tree

theorem outlined_of_readTop {unit : CompilationUnit} {ts : List Tree} : ∀ {package : String} {s s' : List Warning}
    {ds : List Declaration}, Gives (readTop path unit package ts) s ds s' →
      Outlined path none (outlineTop package ts) ds := by
  induction ts with
  | nil =>
    intro package s s' ds h
    rw [readTop, gives_pure] at h
    exact h.1 ▸ .nil
  | cons t ts ih =>
    intro package s s' ds h
    unfold readTop at h
    unfold outlineTop
    split at h
    · rename_i kind
      rw [if_pos kind]
      exact ih h
    · rename_i kind
      rw [if_neg (by simp [kind]), if_neg (by simp [kind, NodeKind.typeKind?])]
      dsimp only at h
      split at h
      · obtain ⟨_, s₁, -, h⟩ := gives_bind.mp h
        exact ih h
      · exact ih h
    · rename_i other _
      rw [if_neg other]
      split at h
      · rename_i type
        rw [if_neg (by simp [type])]
        exact ih h
      · rename_i type
        rw [if_pos (by simp [type])]
        obtain ⟨first, s₁, hf, h⟩ := gives_bind.mp h
        obtain ⟨rest, s₂, hr, h⟩ := gives_bind.mp h
        obtain ⟨rfl, -⟩ := gives_pure.mp h
        exact (Tree.outlined_of_readType hf fun q hq => by cases hq).append (ih hr)

/-- A reading that succeeds gives the types of the outline of the file. -/
theorem outlined_of_read {f : ParsedFile} (h : Gives (f.read path) s ds s') : Outlined path none f.outline ds := by
  unfold ParsedFile.read at h
  dsimp only at h
  split at h
  · obtain ⟨_, s₁, -, h⟩ := gives_bind.mp h
    exact outlined_of_readTop h
  · exact outlined_of_readTop h

end Syntax
end TypeAtlas
