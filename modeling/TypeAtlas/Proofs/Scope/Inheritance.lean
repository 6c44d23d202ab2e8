import TypeAtlas.Proofs.Runs
import TypeAtlas.Proofs.Text.Dotted
import TypeAtlas.Scope.Inheritance

/-! A written name with and without inherited member types. The two readings part exactly where some
type around the name inherits a member of the name's head before any type around it declares one, and
the other reading does not find this member anyway. -/

namespace TypeAtlas

variable {ix : Index}

/-- Single imports stand under the simple names of what they import. -/
def CompilationUnit.ImportsByName (u : CompilationUnit) : Prop := ∀ i ∈ u.singleImports, i.1 = Text.simpleName i.2

/-! ### Inherited members -/

/-- A type of this name that is known as a member of another. -/
def KnownMember (ix : Index) (name member : String) : Prop := ix.knows member = true ∧ ∃ o, member = o ++ "." ++ name

/-- A member that a search gives is known and has the name searched for. -/
def Finds (ix : Index) (name : String) (search : Search) : Prop :=
  ∀ ⦃visited owner member visited'⦄, search visited owner = .ok (some member, visited') → KnownMember ix name member

theorem member_of_searchTypes {name : String} {search : Search} (hs : Finds ix name search) {owners : List String} :
    ∀ {visited member visited'}, searchTypes ix name search visited owners = .ok (some member, visited') →
      KnownMember ix name member := by
  induction owners with
  | nil =>
    intro visited member visited' h
    cases h
  | cons owner owners ih =>
    intro visited member visited' h
    unfold searchTypes at h
    split at h
    · rename_i known
      cases h
      exact ⟨known, owner, rfl⟩
    · obtain ⟨⟨found, visited₁⟩, hf, h⟩ := bind_eq_ok.mp h
      cases found with
      | some m =>
        cases h
        exact hs hf
      | none => exact ih h

theorem finds_searchSupertypes (name : String) (levels : Nat) : Finds ix name (searchSupertypes ix name levels) := by
  induction levels with
  | zero =>
    intro visited owner member visited' h
    cases h
  | succ levels ih =>
    intro visited owner member visited' h
    unfold searchSupertypes at h
    split at h
    · cases h
    · split at h
      · cases h
      · obtain ⟨supertypes, -, h⟩ := bind_eq_ok.mp h
        exact member_of_searchTypes ih h

theorem member_of_inheritedMember {owner name member : String} (h : inheritedMember ix owner name = .ok (some member)) :
    KnownMember ix name member := by
  obtain ⟨⟨found, visited⟩, hf, h⟩ := bind_eq_ok.mp h
  cases h
  exact finds_searchSupertypes name _ hf

/-- The member of this name that one of the owners inherits before any of them declares one. -/
def inheritedFirst (ix : Index) (name : String) : (owners : List String) → Except Error (Option String)
  | [] => .ok none
  | owner :: owners =>
    if ix.knows (owner ++ "." ++ name) then .ok none
    else do
      match ← inheritedMember ix owner name with
      | some member => .ok (some member)
      | none => inheritedFirst ix name owners

theorem member_of_inheritedFirst {name member : String} {owners : List String}
    (h : inheritedFirst ix name owners = .ok (some member)) : KnownMember ix name member := by
  induction owners with
  | nil => cases h
  | cons owner owners ih =>
    unfold inheritedFirst at h
    split at h
    · cases h
    · obtain ⟨found, hf, h⟩ := bind_eq_ok.mp h
      cases found with
      | some m =>
        cases h
        exact member_of_inheritedMember hf
      | none => exact ih h

theorem memberOfFirst_none (name : String) (owners : List String) :
    memberOfFirst ix Inheritance.none name owners = .ok ((owners.map (· ++ "." ++ name)).find? ix.knows) := by
  induction owners with
  | nil => rfl
  | cons owner owners ih =>
    unfold memberOfFirst
    rw [List.map_cons, List.find?_cons]
    cases ix.knows (owner ++ "." ++ name) with
    | true => rfl
    | false => exact ih

theorem memberOfFirst_inherited (name : String) (owners : List String) :
    memberOfFirst ix (inheritedMember ix) name owners =
      inheritedFirst ix name owners >>= fun
        | some member => .ok (some member)
        | none => .ok ((owners.map (· ++ "." ++ name)).find? ix.knows) := by
  induction owners with
  | nil => rfl
  | cons owner owners ih =>
    unfold memberOfFirst inheritedFirst
    rw [List.map_cons, List.find?_cons]
    cases ix.knows (owner ++ "." ++ name) with
    | true => rfl
    | false =>
      cases inheritedMember ix owner name with
      | error e => rfl
      | ok found =>
        cases found with
        | some m => rfl
        | none => exact ih

/-! ### The two readings of a name -/

namespace LexicalScope

variable {s : LexicalScope}

/-- What the types around a name inherit leaves its meaning as it is. -/
def Settled (s : LexicalScope) (ix : Index) (name : String) : Prop :=
  name ∈ s.typeVariables ∨ (s.enclosing.find? (Text.simpleName · == name)).isSome ∨
    ∃ member, inheritedFirst ix name s.enclosing = .ok member ∧
      (member = none ∨ s.resolveSimple ix Inheritance.none name = .ok member)

theorem resolveSimple_none (s : LexicalScope) (ix : Index) (name : String) :
    ∃ r, s.resolveSimple ix Inheritance.none name = .ok r := by
  unfold resolveSimple
  rw [memberOfFirst_none]
  split
  · exact ⟨none, rfl⟩
  · split
    · exact ⟨_, rfl⟩
    · cases (s.enclosing.map (· ++ "." ++ name)).find? ix.knows with
      | some member => exact ⟨_, rfl⟩
      | none => exact ⟨_, rfl⟩

theorem resolveSimple_inherited {name : String} (hv : name ∉ s.typeVariables)
    (he : s.enclosing.find? (Text.simpleName · == name) = none) :
    s.resolveSimple ix (inheritedMember ix) name =
      inheritedFirst ix name s.enclosing >>= fun
        | some member => .ok (some member)
        | none => s.resolveSimple ix Inheritance.none name := by
  simp only [resolveSimple, if_neg hv, he, memberOfFirst_none, memberOfFirst_inherited]
  cases inheritedFirst ix name s.enclosing with
  | error e => rfl
  | ok member => cases member <;> rfl

/-- Inherited members add meanings and take none away. -/
theorem isSome_of_resolveSimple {name r : String} {r' : Option String}
    (h : s.resolveSimple ix Inheritance.none name = .ok (some r))
    (h' : s.resolveSimple ix (inheritedMember ix) name = .ok r') : r'.isSome := by
  by_cases hv : name ∈ s.typeVariables
  · simp [resolveSimple, hv] at h
  · cases he : s.enclosing.find? (Text.simpleName · == name) with
    | some e =>
      simp [resolveSimple, hv, he] at h'
      simp [← h']
    | none =>
      rw [resolveSimple_inherited hv he] at h'
      obtain ⟨member, -, h'⟩ := bind_eq_ok.mp h'
      cases member with
      | some m =>
        cases h'
        rfl
      | none =>
        cases h.symm.trans h'
        rfl

theorem resolveSimple_eq_iff (name : String) :
    s.resolveSimple ix (inheritedMember ix) name = s.resolveSimple ix Inheritance.none name ↔ s.Settled ix name := by
  by_cases hv : name ∈ s.typeVariables
  · simp [Settled, resolveSimple, hv]
  · cases he : s.enclosing.find? (Text.simpleName · == name) with
    | some e => simp [Settled, resolveSimple, hv, he]
    | none =>
      obtain ⟨r, hr⟩ := s.resolveSimple_none ix name
      rw [resolveSimple_inherited hv he, hr]
      cases hm : inheritedFirst ix name s.enclosing with
      | error e => simp [Settled, hv, he, hm, bind, Except.bind]
      | ok member =>
        cases member with
        | none => simp [Settled, hm, bind, Except.bind]
        | some m => simp [Settled, hv, he, hm, hr, bind, Except.bind, eq_comm]

/-- What is found only with inherited members is one of them. -/
theorem member_of_resolveSimple {name r : String} (h : s.resolveSimple ix Inheritance.none name = .ok none)
    (h' : s.resolveSimple ix (inheritedMember ix) name = .ok (some r)) : KnownMember ix name r := by
  by_cases hv : name ∈ s.typeVariables
  · simp [resolveSimple, hv] at h'
  · cases he : s.enclosing.find? (Text.simpleName · == name) with
    | some e => simp [resolveSimple, hv, he] at h
    | none =>
      rw [resolveSimple_inherited hv he, h] at h'
      obtain ⟨member, hm, h'⟩ := bind_eq_ok.mp h'
      cases member with
      | some m =>
        cases h'
        exact member_of_inheritedFirst hm
      | none => cases h'

theorem resolveErased_none (s : LexicalScope) (ix : Index) (name : String) :
    ∃ r, s.resolveErased ix Inheritance.none name = .ok r := by
  unfold resolveErased
  split
  · exact s.resolveSimple_none ix name
  · obtain ⟨r, hr⟩ := s.resolveSimple_none ix (Text.headSegment name)
    rw [hr]
    cases r with
    | some r => exact ⟨_, rfl⟩
    | none => exact ⟨_, rfl⟩

theorem isSome_of_resolveErased {name r : String} {r' : Option String}
    (h : s.resolveErased ix Inheritance.none name = .ok (some r))
    (h' : s.resolveErased ix (inheritedMember ix) name = .ok r') : r'.isSome := by
  cases ha : Text.afterHead? name with
  | none =>
    simp only [resolveErased, ha] at h h'
    exact isSome_of_resolveSimple h h'
  | some rest =>
    simp only [resolveErased, ha] at h h'
    obtain ⟨x, hx, h⟩ := bind_eq_ok.mp h
    obtain ⟨x', hx', h'⟩ := bind_eq_ok.mp h'
    cases x' with
    | some x' =>
      cases h'
      rfl
    | none =>
      cases x with
      | some x => cases isSome_of_resolveSimple hx hx'
      | none =>
        cases h.symm.trans h'
        rfl

/-- What has its own head for a member differs from it, so a dotted name settles with its head. -/
theorem resolveErased_eq_iff (name : String) :
    s.resolveErased ix (inheritedMember ix) name = s.resolveErased ix Inheritance.none name ↔
      s.Settled ix (Text.headSegment name) := by
  rw [← resolveSimple_eq_iff]
  cases ha : Text.afterHead? name with
  | none =>
    rw [Text.headSegment_of_afterHead? ha]
    simp only [resolveErased, ha]
  | some rest =>
    refine ⟨?_, ?_⟩
    · intro h
      simp only [resolveErased, ha] at h
      obtain ⟨r, hr⟩ := s.resolveSimple_none ix (Text.headSegment name)
      rw [hr] at h
      rw [hr]
      cases hr' : s.resolveSimple ix (inheritedMember ix) (Text.headSegment name) with
      | error e =>
        rw [hr'] at h
        cases r <;> cases h
      | ok r' =>
        rw [hr'] at h
        cases r with
        | some x =>
          cases r' with
          | some x' => rw [Text.append_dot_cancel (Option.some.inj (Except.ok.inj h))]
          | none => cases isSome_of_resolveSimple hr hr'
        | none =>
          cases r' with
          | some x' =>
            obtain ⟨-, o, rfl⟩ := member_of_resolveSimple hr hr'
            -- the full name itself, if it is known, would be the member under its own head
            have hx : some (o ++ "." ++ Text.headSegment name ++ "." ++ rest) =
                if ix.knows name then some name else none := Except.ok.inj h
            split at hx
            · have same := (Option.some.inj hx).trans (Text.eq_of_afterHead? ha)
              exact absurd (Text.append_dot_cancel same) (Text.member_ne _ _)
            · cases hx
          | none => rfl
    · intro h
      simp only [resolveErased, ha, h]

theorem resolveWith_none (s : LexicalScope) (ix : Index) (name : String) :
    ∃ r, s.resolveWith ix Inheritance.none name = .ok r := by
  simp only [resolveWith]
  split
  · exact ⟨none, rfl⟩
  · exact s.resolveErased_none ix _

theorem isSome_of_resolveWith {name r : String} {r' : Option String}
    (h : s.resolveWith ix Inheritance.none name = .ok (some r))
    (h' : s.resolveWith ix (inheritedMember ix) name = .ok r') : r'.isSome := by
  simp only [resolveWith] at h h'
  split at h
  · cases h
  · rename_i hn
    rw [if_neg hn] at h'
    exact isSome_of_resolveErased h h'

theorem resolveWith_eq_iff (name : String) :
    s.resolveWith ix (inheritedMember ix) name = s.resolveWith ix Inheritance.none name ↔
      isNameless (Text.erase name) ∨ s.Settled ix (Text.headSegment (Text.erase name)) := by
  rw [← resolveErased_eq_iff]
  simp only [resolveWith]
  split
  · rename_i hn
    simp [hn]
  · rename_i hn
    simp [hn]

/-! ### Resolved names are names -/

theorem ne_empty_of_lookup {u : CompilationUnit} (hu : u.ImportsByName) {name r : String} (hn : name ≠ "")
    (h : u.lookup ix name = some r) : r ≠ "" := by
  unfold CompilationUnit.lookup at h
  rcases Option.or_eq_some_iff.mp h with h | ⟨-, h⟩
  · obtain ⟨before, after, hi, -⟩ := List.lookup_eq_some_iff.mp h
    have key : name = Text.simpleName r := hu (name, r) (by simp [hi])
    rintro rfl
    exact hn (key.trans (by decide))
  · rcases List.mem_cons.mp (List.mem_of_find?_eq_some h) with rfl | h
    · unfold Text.qualify
      split
      · exact hn
      · simp
    · obtain ⟨prefix', -, rfl⟩ := List.mem_map.mp h
      simp

theorem ne_empty_of_memberOfFirst {name r : String} {owners : List String}
    (h : memberOfFirst ix (inheritedMember ix) name owners = .ok (some r)) : r ≠ "" := by
  rw [memberOfFirst_inherited] at h
  obtain ⟨member, hm, h⟩ := bind_eq_ok.mp h
  cases member with
  | some m =>
    cases h
    obtain ⟨-, o, rfl⟩ := member_of_inheritedFirst hm
    simp
  | none =>
    obtain ⟨o, -, rfl⟩ := List.mem_map.mp (List.mem_of_find?_eq_some (Except.ok.inj h))
    simp

theorem ne_empty_of_resolveSimple (hu : s.unit.ImportsByName) {name r : String} (hn : name ≠ "")
    (h : s.resolveSimple ix (inheritedMember ix) name = .ok (some r)) : r ≠ "" := by
  unfold resolveSimple at h
  split at h
  · cases h
  · split at h
    · rename_i e he
      cases h
      rintro rfl
      have hs : Text.simpleName "" = name := by simpa using List.find?_some he
      exact hn (hs.symm.trans (by decide))
    · obtain ⟨member, hm, h⟩ := bind_eq_ok.mp h
      cases member with
      | some m =>
        cases h
        exact ne_empty_of_memberOfFirst hm
      | none => exact ne_empty_of_lookup hu hn (Except.ok.inj h)

/-- A name that resolves has a name to show for it. -/
theorem ne_empty_of_resolveWith (hu : s.unit.ImportsByName) {name r : String}
    (h : s.resolveWith ix (inheritedMember ix) name = .ok (some r)) : r ≠ "" := by
  simp only [resolveWith] at h
  split at h
  · cases h
  · rename_i hn
    have hn : Text.erase name ≠ "" := fun he => hn (by simp [isNameless, he])
    unfold resolveErased at h
    split at h
    · exact ne_empty_of_resolveSimple hu hn h
    · obtain ⟨head, -, h⟩ := bind_eq_ok.mp h
      cases head with
      | some head =>
        cases h
        simp
      | none =>
        dsimp only at h
        split at h
        · cases h
          exact hn
        · cases h

end LexicalScope
end TypeAtlas
