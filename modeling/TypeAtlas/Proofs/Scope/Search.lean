import Mathlib
import TypeAtlas.Proofs.Outcomes
import TypeAtlas.Scope.Inheritance

/-! The search for inherited member types over arbitrary hierarchies, with cycles and types that are reached
on several ways. A type is not entered twice, and along one way not more than `maxLinks` links are followed;
where no chain of distinct types is longer, the search still finds a member if any supertype declares one.
What carries this is that a search without result leaves every type it has been to exhausted: no supertype
of it declares the member, and it has been to all of them. -/

namespace TypeAtlas

open Relation

variable {ix : Index} {name owner : String} {visited visited' : List String}

/-- `s` is a direct supertype of the known type `t`. -/
def Supertype (ix : Index) (t s : String) : Prop :=
  ∃ d supertypes, ix t = some d ∧ d.supertypes ix = .ok supertypes ∧ s ∈ supertypes

/-- A supertype of the owner, or the owner itself, writes supertypes that cannot be read. -/
def Unreadable (ix : Index) (owner : String) (e : Error) : Prop :=
  ∃ t d, ReflTransGen (Supertype ix) owner t ∧ ix t = some d ∧ d.supertypes ix = .error e

theorem Index.knows_iff : ix.knows owner = true ↔ ∃ d, ix owner = some d := Option.isSome_iff_exists

theorem Supertype.knows {t s : String} (h : Supertype ix t s) : ix.knows t = true := by
  obtain ⟨d, -, hd, -⟩ := h
  exact Index.knows_iff.mpr ⟨d, hd⟩

/-! ### Room for the search -/

/-- No chain of distinct known types from the owner past the visited ones has more than `levels` types. -/
def Room (ix : Index) (visited : List String) (levels : Nat) (owner : String) : Prop :=
  ∀ ts, (owner :: ts).IsChain (Supertype ix) → (owner :: ts).Nodup →
    (∀ t ∈ owner :: ts, ix.knows t = true ∧ t ∉ visited) → (owner :: ts).length ≤ levels

namespace Room

variable {levels : Nat}

theorem mono (h : Room ix visited levels owner) (sub : visited ⊆ visited') : Room ix visited' levels owner :=
  fun ts chain distinct known => h ts chain distinct fun t ht => ⟨(known t ht).1, fun hv => (known t ht).2 (sub hv)⟩

theorem mem_of_zero (h : Room ix visited 0 owner) (known : ix.knows owner = true) : owner ∈ visited := by
  by_contra hv
  have alone : [owner].length ≤ 0 :=
    h [] (.singleton _) (List.nodup_singleton owner) fun t ht => List.mem_singleton.mp ht ▸ ⟨known, hv⟩
  simp at alone

/-- One level less is left below the owner once it is visited. -/
theorem step (h : Room ix visited (levels + 1) owner) (hv : owner ∉ visited) {s : String} (hs : Supertype ix owner s) :
    Room ix (owner :: visited) levels s := by
  intro ts chain distinct known
  have apart : owner ∉ s :: ts := fun ho => (known owner ho).2 List.mem_cons_self
  have longer := h (s :: ts) (.cons_cons hs chain) (List.nodup_cons.mpr ⟨apart, distinct⟩) fun t ht => by
    rcases List.mem_cons.mp ht with rfl | ht
    · exact ⟨hs.knows, hv⟩
    · exact ⟨(known t ht).1, fun hv => (known t ht).2 (List.mem_cons_of_mem _ hv)⟩
  exact Nat.le_of_succ_le_succ longer

end Room

/-- The second list has the types of the first, and others for which `new` holds. -/
structure Grown (new : String → Prop) (visited visited' : List String) : Prop where
  subset : visited ⊆ visited'
  new : ∀ t ∈ visited', t ∈ visited ∨ new t

namespace Grown

variable {new : String → Prop}

theorem refl (visited : List String) : Grown new visited visited := ⟨List.Subset.refl _, fun _ => .inl⟩

theorem trans {visited'' : List String} {old : String → Prop} (h : Grown old visited visited')
    (h' : Grown new visited' visited'') (ho : ∀ t, old t → new t) : Grown new visited visited'' where
  subset := List.Subset.trans h.subset h'.subset
  new := by
    intro t ht
    rcases h'.new t ht with ht | ht
    · exact (h.new t ht).imp_right (ho t)
    · exact .inr ht

/-- The owner itself counts as new. -/
theorem of_cons (h : Grown new (owner :: visited) visited') (ho : new owner) : Grown new visited visited' where
  subset := List.Subset.trans (List.subset_cons_self _ _) h.subset
  new := by
    intro t ht
    rcases h.new t ht with ht | ht
    · rcases List.mem_cons.mp ht with rfl | ht
      · exact .inr ho
      · exact .inl ht
    · exact .inr ht

end Grown

/-! ### What a search has been through -/

/-- No supertype of the type declares the member, and the known ones are visited. -/
def Exhausted (ix : Index) (name : String) (visited : List String) (t : String) : Prop :=
  ∀ s, Supertype ix t s → ix.knows (s ++ "." ++ name) = false ∧ (ix.knows s = true → s ∈ visited)

theorem Exhausted.mono (sub : visited ⊆ visited') {t : String} (h : Exhausted ix name visited t) :
    Exhausted ix name visited' t :=
  fun s hs => ⟨(h s hs).1, fun known => sub ((h s hs).2 known)⟩

/-- How a search in the supertypes of the owner comes out. -/
def Explored (ix : Index) (name : String) (visited : List String) (owner : String) : Option String × List String → Prop
  | (some member, _) => ∃ s, TransGen (Supertype ix) owner s ∧ ix.knows (s ++ "." ++ name) = true ∧
      member = s ++ "." ++ name
  | (none, visited') => Grown (Exhausted ix name visited') visited visited' ∧ (ix.knows owner = true → owner ∈ visited')

/-- How a search in the given types and their supertypes comes out. -/
def ExploredAll (ix : Index) (name : String) (visited owners : List String) : Option String × List String → Prop
  | (some member, _) => ∃ o ∈ owners, ∃ s, ReflTransGen (Supertype ix) o s ∧ ix.knows (s ++ "." ++ name) = true ∧
      member = s ++ "." ++ name
  | (none, visited') => Grown (Exhausted ix name visited') visited visited' ∧
      ∀ o ∈ owners, ix.knows (o ++ "." ++ name) = false ∧ (ix.knows o = true → o ∈ visited')

theorem explored_searchTypes {search : Search} {owners : List String} :
    ∀ visited, (∀ visited', visited ⊆ visited' → ∀ o ∈ owners,
        Ends (Explored ix name visited' o) (Unreadable ix o) (search visited' o)) →
      Ends (ExploredAll ix name visited owners) (fun e => ∃ o ∈ owners, Unreadable ix o e)
        (searchTypes ix name search visited owners) := by
  induction owners with
  | nil => exact fun visited _ => ⟨.refl visited, nofun⟩
  | cons o owners ih =>
    intro visited hs
    unfold searchTypes
    by_cases known : ix.knows (o ++ "." ++ name) = true
    · rw [if_pos known]
      exact ⟨o, List.mem_cons_self, o, .refl, known, rfl⟩
    · rw [if_neg known]
      refine ((hs visited (List.Subset.refl _) o List.mem_cons_self).imp (fun _ h => h) fun e h => ?_).bind ?_
      · exact ⟨o, List.mem_cons_self, h⟩
      rintro ⟨_ | member, visited₁⟩ explored
      · obtain ⟨grown, entered⟩ := explored
        have rest := ih visited₁ fun visited' sub p hp =>
          hs visited' (List.Subset.trans grown.subset sub) p (List.mem_cons_of_mem _ hp)
        refine rest.imp ?_ fun e ⟨p, hp, unreadable⟩ => ⟨p, List.mem_cons_of_mem _ hp, unreadable⟩
        rintro ⟨_ | member, visited₂⟩ exploredAll
        · obtain ⟨grown', all⟩ := exploredAll
          refine ⟨grown.trans grown' fun t => .mono grown'.subset, fun p hp => ?_⟩
          rcases List.mem_cons.mp hp with rfl | hp
          · exact ⟨by simpa using known, fun ho => grown'.subset (entered ho)⟩
          · exact all p hp
        · obtain ⟨p, hp, found⟩ := exploredAll
          exact ⟨p, List.mem_cons_of_mem _ hp, found⟩
      · obtain ⟨s, reached, found⟩ := explored
        exact ⟨o, List.mem_cons_self, s, reached.to_reflTransGen, found⟩

theorem explored_searchSupertypes (name : String) (levels : Nat) :
    ∀ visited owner, Room ix visited levels owner →
      Ends (Explored ix name visited owner) (Unreadable ix owner) (searchSupertypes ix name levels visited owner) := by
  induction levels with
  | zero => exact fun visited owner room => ⟨.refl visited, room.mem_of_zero⟩
  | succ levels ih =>
    intro visited owner room
    unfold searchSupertypes
    rcases hd : ix owner with - | d
    · exact ⟨.refl visited, fun known => by simp [Index.knows, hd] at known⟩
    · by_cases hv : owner ∈ visited
      · simp only [if_pos hv]
        exact ⟨.refl visited, fun _ => hv⟩
      · simp only [if_neg hv]
        rcases hs : d.supertypes ix with e | supertypes
        · exact ⟨owner, d, .refl, hd, hs⟩
        · have direct (s : String) (h : s ∈ supertypes) : Supertype ix owner s := ⟨d, supertypes, hd, hs, h⟩
          have all : Ends (ExploredAll ix name (owner :: visited) supertypes) _
              (searchTypes ix name (searchSupertypes ix name levels) (owner :: visited) supertypes) :=
            explored_searchTypes _ fun visited' sub s h => ih visited' s ((room.step hv (direct s h)).mono sub)
          refine all.imp ?_ fun e ⟨s, h, t, d', reached, unreadable⟩ => ⟨t, d', reached.head (direct s h), unreadable⟩
          rintro ⟨_ | member, visited'⟩ exploredAll
          · obtain ⟨grown, each⟩ := exploredAll
            refine ⟨grown.of_cons fun s h => ?_, fun _ => grown.subset List.mem_cons_self⟩
            obtain ⟨d', supertypes', hd', hs', h⟩ := h
            cases hd.symm.trans hd'
            cases hs.symm.trans hs'
            exact each s h
          · obtain ⟨s, h, t, reached, found⟩ := exploredAll
            exact ⟨t, .head' (direct s h) reached, found⟩

/-- A search from scratch that finds nothing has been to every supertype. -/
theorem exhausted_of_reached {levels : Nat} (room : Room ix [] levels owner)
    (h : searchSupertypes ix name levels [] owner = .ok (none, visited')) {s : String}
    (reached : TransGen (Supertype ix) owner s) :
    ix.knows (s ++ "." ++ name) = false ∧ (ix.knows s = true → s ∈ visited') := by
  have explored := explored_searchSupertypes name levels [] owner room
  rw [h] at explored
  obtain ⟨grown, entered⟩ := explored
  have exhausted (t : String) (ht : t ∈ visited') : Exhausted ix name visited' t :=
    (grown.new t ht).resolve_left List.not_mem_nil
  induction reached with
  | single hs => exact exhausted owner (entered hs.knows) _ hs
  | tail _ hs ih => exact exhausted _ (ih.2 hs.knows) _ hs

/-! ### The plain search -/

/-- The search as it would be without a record of the types it has been to. -/
def plainSearch (ix : Index) : (levels : Nat) → Inheritance
  | 0 => Inheritance.none
  | levels + 1 => fun owner name =>
    match ix owner with
    | none => .ok none
    | some d => do memberOfFirst ix (plainSearch ix levels) name (← d.supertypes ix)

/-- No supertype of the owner is its own supertype. -/
def Acyclic (ix : Index) (owner : String) : Prop :=
  ∀ t, ReflTransGen (Supertype ix) owner t → ¬ TransGen (Supertype ix) t t

/-- All supertypes of the owner can be read, and none of them declares the member. -/
def Barren (ix : Index) (name owner : String) : Prop :=
  ∀ t d, ReflTransGen (Supertype ix) owner t → ix t = some d →
    ∃ supertypes, d.supertypes ix = .ok supertypes ∧ ∀ s ∈ supertypes, ix.knows (s ++ "." ++ name) = false

theorem Barren.of_supertypes {d : Declaration} {supertypes : List String} (hd : ix owner = some d)
    (hs : d.supertypes ix = .ok supertypes)
    (h : ∀ s ∈ supertypes, ix.knows (s ++ "." ++ name) = false ∧ Barren ix name s) : Barren ix name owner := by
  intro t d' reached hd'
  rcases ReflTransGen.cases_head reached with rfl | ⟨s, ⟨d₁, supertypes₁, hd₁, hs₁, direct⟩, reached⟩
  · cases hd.symm.trans hd'
    exact ⟨supertypes, hs, fun s hs => (h s hs).1⟩
  · cases hd.symm.trans hd₁
    cases hs.symm.trans hs₁
    exact (h s direct).2 t d' reached hd'

theorem memberOfFirst_eq_none {inherited : Inheritance} {owners : List String}
    (h : ∀ o ∈ owners, ix.knows (o ++ "." ++ name) = false ∧ inherited o name = .ok none) :
    memberOfFirst ix inherited name owners = .ok none := by
  induction owners with
  | nil => rfl
  | cons o owners ih =>
    obtain ⟨unknown, nothing⟩ := h o List.mem_cons_self
    unfold memberOfFirst
    rw [unknown, nothing]
    exact ih fun p hp => h p (List.mem_cons_of_mem _ hp)

theorem plainSearch_of_barren (levels : Nat) :
    ∀ owner, Barren ix name owner → plainSearch ix levels owner name = .ok none := by
  induction levels with
  | zero => exact fun _ _ => rfl
  | succ levels ih =>
    intro owner barren
    unfold plainSearch
    rcases hd : ix owner with - | d
    · rfl
    · obtain ⟨supertypes, hs, unknown⟩ := barren owner d .refl hd
      dsimp only
      rw [hs]
      refine memberOfFirst_eq_none fun s h => ⟨unknown s h, ih s fun t d' reached => ?_⟩
      exact barren t d' (reached.head ⟨d, supertypes, hd, hs, h⟩)

/-- A search comes out as the plain one does and, if it finds nothing, has brought about `done` and visited
only types without the member. -/
def Follows (ix : Index) (name : String) (visited : List String) (done : Prop) (plain : Except Error (Option String))
    (r : Option String × List String) : Prop :=
  plain = .ok r.1 ∧ (r.1 = none → done ∧ Grown (Barren ix name) visited r.2)

theorem follows_searchTypes {search : Search} {inherited : Inheritance} {owners : List String} :
    ∀ visited, (∀ visited', Grown (Barren ix name) visited visited' → ∀ o ∈ owners,
        Ends (Follows ix name visited' (Barren ix name o) (inherited o name)) (fun e => inherited o name = .error e)
          (search visited' o)) →
      Ends (Follows ix name visited (∀ o ∈ owners, ix.knows (o ++ "." ++ name) = false ∧ Barren ix name o)
          (memberOfFirst ix inherited name owners))
        (fun e => memberOfFirst ix inherited name owners = .error e) (searchTypes ix name search visited owners) := by
  induction owners with
  | nil => exact fun visited _ => ⟨rfl, fun _ => ⟨nofun, .refl visited⟩⟩
  | cons o owners ih =>
    intro visited hs
    unfold searchTypes memberOfFirst
    by_cases known : ix.knows (o ++ "." ++ name) = true
    · rw [if_pos known, if_pos known]
      exact ⟨rfl, nofun⟩
    · rw [if_neg known, if_neg known]
      refine ((hs visited (.refl visited) o List.mem_cons_self).imp (fun _ h => h) fun e h => ?_).bind ?_
      · rw [h]
        rfl
      rintro ⟨_ | member, visited₁⟩ ⟨plain, none⟩
      · obtain ⟨barren, grown⟩ := none rfl
        have rest := ih visited₁ fun visited' grown' p hp =>
          hs visited' (grown.trans grown' fun _ h => h) p (List.mem_cons_of_mem _ hp)
        rw [plain]
        refine rest.imp ?_ fun e h => h
        rintro ⟨found, visited₂⟩ ⟨plain', none'⟩
        refine ⟨plain', fun h => ⟨fun p hp => ?_, grown.trans (none' h).2 fun _ h => h⟩⟩
        rcases List.mem_cons.mp hp with rfl | hp
        · exact ⟨by simpa using known, barren⟩
        · exact (none' h).1 p hp
      · rw [plain]
        exact ⟨rfl, nofun⟩

/-- What is visited and can be reached from the owner was left without a result, so it need not be searched
again: on the way down no cycle leads back to a type whose search is still going on. -/
theorem follows_searchSupertypes (name : String) (levels : Nat) :
    ∀ visited owner limit, levels ≤ limit → Acyclic ix owner → Room ix visited levels owner →
      (∀ v ∈ visited, ReflTransGen (Supertype ix) owner v → Barren ix name v) →
      Ends (Follows ix name visited (Barren ix name owner) (plainSearch ix limit owner name))
        (fun e => plainSearch ix limit owner name = .error e) (searchSupertypes ix name levels visited owner) := by
  have visitedBefore {visited : List String} {owner : String} (limit : Nat) (barren : Barren ix name owner) :
      Follows ix name visited (Barren ix name owner) (plainSearch ix limit owner name) (none, visited) :=
    ⟨plainSearch_of_barren limit owner barren, fun _ => ⟨barren, .refl visited⟩⟩
  have unknown {owner : String} (h : ix owner = none) : Barren ix name owner := by
    intro t d reached hd
    rcases ReflTransGen.cases_head reached with rfl | ⟨s, ⟨d', _, hd', -⟩, -⟩
    · cases h.symm.trans hd
    · cases h.symm.trans hd'
  induction levels with
  | zero =>
    intro visited owner limit _ _ room before
    refine visitedBefore limit ?_
    rcases hd : ix owner with - | d
    · exact unknown hd
    · exact before owner (room.mem_of_zero (Index.knows_iff.mpr ⟨d, hd⟩)) .refl
  | succ levels ih =>
    intro visited owner limit hl acyclic room before
    obtain ⟨limit, rfl⟩ := Nat.exists_eq_add_of_le' (Nat.le_of_add_left_le hl)
    unfold searchSupertypes
    rcases hd : ix owner with - | d
    · exact visitedBefore _ (unknown hd)
    · by_cases hv : owner ∈ visited
      · simp only [if_pos hv]
        exact visitedBefore _ (before owner hv .refl)
      · simp only [if_neg hv, plainSearch, hd]
        rcases hs : d.supertypes ix with e | supertypes
        · exact rfl
        · have direct (s : String) (h : s ∈ supertypes) : Supertype ix owner s := ⟨d, supertypes, hd, hs, h⟩
          have all : Ends (Follows ix name (owner :: visited)
                (∀ s ∈ supertypes, ix.knows (s ++ "." ++ name) = false ∧ Barren ix name s)
                (memberOfFirst ix (plainSearch ix limit) name supertypes))
              (fun e => memberOfFirst ix (plainSearch ix limit) name supertypes = .error e)
              (searchTypes ix name (searchSupertypes ix name levels) (owner :: visited) supertypes) := by
            refine follows_searchTypes _ fun visited' grown s h => ?_
            have acyclic' : Acyclic ix s := fun t reached => acyclic t (reached.head (direct s h))
            have room' : Room ix visited' levels s := (room.step hv (direct s h)).mono grown.subset
            refine ih visited' s limit (Nat.le_of_succ_le_succ hl) acyclic' room' fun v hv' reached => ?_
            rcases grown.new v hv' with hv' | barren
            · rcases List.mem_cons.mp hv' with rfl | hv'
              · exact absurd (TransGen.head' (direct s h) reached) (acyclic v .refl)
              · exact before v hv' (reached.head (direct s h))
            · exact barren
          refine all.imp ?_ fun e h => h
          rintro ⟨found, visited'⟩ ⟨plain, none⟩
          refine ⟨plain, fun h => ?_⟩
          obtain ⟨each, grown⟩ := none h
          have barren : Barren ix name owner := .of_supertypes hd hs each
          exact ⟨barren, grown.of_cons barren⟩

/-! ### The whole search -/

theorem room_of_chains
    (h : ∀ ts, (owner :: ts).IsChain (Supertype ix) → (owner :: ts).Nodup → (∀ t ∈ ts, ix.knows t = true) →
      ts.length ≤ maxLinks) : Room ix [] (maxLinks + 1) owner :=
  fun ts chain distinct known =>
    Nat.succ_le_succ (h ts chain distinct fun t ht => (known t (List.mem_cons_of_mem _ ht)).1)

/-- A rank that falls with every link bounds the chains. -/
theorem length_le_of_rank {rank : String → Nat} (h : ∀ t s, Supertype ix t s → rank s < rank t) {ts : List String} :
    ∀ {owner}, (owner :: ts).IsChain (Supertype ix) → ts.length ≤ rank owner := by
  induction ts with
  | nil => exact fun _ => Nat.zero_le _
  | cons t ts ih =>
    intro owner chain
    obtain ⟨direct, chain⟩ := List.isChain_cons_cons.mp chain
    exact Nat.succ_le_of_lt (Nat.lt_of_le_of_lt (ih chain) (h owner t direct))

theorem acyclic_of_rank {rank : String → Nat} (h : ∀ t s, Supertype ix t s → rank s < rank t) : Acyclic ix owner := by
  have falls {t s : String} (reached : TransGen (Supertype ix) t s) : rank s < rank t := by
    induction reached with
    | single direct => exact h _ _ direct
    | tail _ direct ih => exact Nat.lt_trans (h _ _ direct) ih
  exact fun t _ cycle => Nat.lt_irrefl _ (falls cycle)

/-- Whether the rank falls with every link between the given declarations. -/
def isRank (ds : List Declaration) (rank : String → Nat) : Bool :=
  ds.all fun d => ((d.supertypes (Index.ofList ds)).toOption.getD []).all fun s => rank s < rank d.name

theorem lt_of_isRank (ds : List Declaration) (rank : String → Nat) (h : isRank ds rank = true) (t s : String)
    (direct : Supertype (Index.ofList ds) t s) : rank s < rank t := by
  obtain ⟨d, supertypes, hd, hs, direct⟩ := direct
  have name : d.name = t := by simpa using List.find?_some hd
  have falls := List.all_eq_true.mp (List.all_eq_true.mp h d (List.mem_of_find?_eq_some hd))
  rw [hs] at falls
  simpa [name] using falls s direct

/-- Where no chain of distinct known supertypes has more than `maxLinks` links, an inherited member is found
exactly if a supertype declares one, and what is found is the member of such a supertype; but a type whose
supertypes cannot be read makes the search fail. On hierarchies without cycles the search comes out as the
plain one: neither the record of visited types nor the limit makes a difference. -/
theorem inheritedMember_exact (ix : Index) (owner name : String)
    (chains : ∀ ts, (owner :: ts).IsChain (Supertype ix) → (owner :: ts).Nodup → (∀ t ∈ ts, ix.knows t = true) →
      ts.length ≤ maxLinks) :
    (∀ member, inheritedMember ix owner name = .ok (some member) →
      ∃ s, TransGen (Supertype ix) owner s ∧ ix.knows (s ++ "." ++ name) = true ∧ member = s ++ "." ++ name) ∧
    (∀ e, inheritedMember ix owner name = .error e → Unreadable ix owner e) ∧
    ((∀ e, inheritedMember ix owner name ≠ .error e) →
      ((∃ member, inheritedMember ix owner name = .ok (some member)) ↔
        ∃ s, TransGen (Supertype ix) owner s ∧ ix.knows (s ++ "." ++ name) = true)) ∧
    (Acyclic ix owner →
      ∀ levels, maxLinks < levels → plainSearch ix levels owner name = inheritedMember ix owner name) := by
  have room := room_of_chains chains
  have explored := explored_searchSupertypes name _ [] owner room
  have eq : inheritedMember ix owner name = (searchSupertypes ix name (maxLinks + 1) [] owner).map Prod.fst := by
    unfold inheritedMember
    cases searchSupertypes ix name (maxLinks + 1) [] owner <;> rfl
  rw [eq]
  refine ⟨?_, ?_, ?_, ?_⟩
  · intro member h
    rcases hr : searchSupertypes ix name (maxLinks + 1) [] owner with e | ⟨found, visited⟩
    · rw [hr] at h
      cases h
    · rw [hr] at h explored
      cases h
      exact explored
  · intro e h
    rcases hr : searchSupertypes ix name (maxLinks + 1) [] owner with e' | ⟨found, visited⟩
    · rw [hr] at h explored
      cases h
      exact explored
    · rw [hr] at h
      cases h
  · intro fine
    rcases hr : searchSupertypes ix name (maxLinks + 1) [] owner with e | ⟨_ | member, visited⟩
    · exact absurd (congrArg _ hr) (fine e)
    · refine iff_of_false (by rintro ⟨member, h⟩; cases h) ?_
      rintro ⟨s, reached, known⟩
      rw [(exhausted_of_reached room hr reached).1] at known
      cases known
    · rw [hr] at explored
      obtain ⟨s, reached, known, -⟩ := explored
      exact iff_of_true ⟨member, rfl⟩ ⟨s, reached, known⟩
  · intro acyclic levels hl
    have follows := follows_searchSupertypes name _ [] owner levels hl acyclic room nofun
    rcases hr : searchSupertypes ix name (maxLinks + 1) [] owner with e | r
    · rw [hr] at follows
      exact follows
    · rw [hr] at follows
      exact follows.1

/-- A class `Bottom` that inherits from `Top` on two ways; the second way has the member `N`. -/
def diamond : List Declaration :=
  [{ name := "Bottom", superclass := some "QLeft;", interfaces := ["QRight;"] },
    { name := "Left", superclass := some "QTop;" }, { name := "Right", superclass := some "QTop;" },
    { name := "Top" }, { name := "Right.N" }]

def diamondRank (name : String) : Nat :=
  if name = "Bottom" then 2 else if name = "Left" ∨ name = "Right" then 1 else 0

theorem inheritedMember_diamond :
    (∀ ts, ("Bottom" :: ts).IsChain (Supertype (Index.ofList diamond)) → ts.length ≤ maxLinks) ∧
      (∃ member, inheritedMember (Index.ofList diamond) "Bottom" "N" = .ok (some member)) ∧
      plainSearch (Index.ofList diamond) 100 "Bottom" "N" = inheritedMember (Index.ofList diamond) "Bottom" "N" := by
  have rank := lt_of_isRank diamond diamondRank (by cbv)
  have chains (ts : List String) (chain : ("Bottom" :: ts).IsChain (Supertype (Index.ofList diamond))) :
      ts.length ≤ maxLinks := Nat.le_trans (length_le_of_rank rank chain) (by decide)
  have direct : Supertype (Index.ofList diamond) "Bottom" "Right" :=
    ⟨_, ["Left", "Right"], rfl, by cbv, by decide⟩
  obtain ⟨-, -, found, plain⟩ :=
    inheritedMember_exact (Index.ofList diamond) "Bottom" "N" fun ts chain _ _ => chains ts chain
  refine ⟨chains, (found fun e => ?_).mpr ⟨"Right", .single direct, by cbv⟩,
    plain (acyclic_of_rank rank) 100 (by decide)⟩
  cbv
  intro h
  cases h

/-- A class `Q` with the superclass `A` and the interface `B`, which has a member `N`; the superclass of `A` is
no signature. -/
def brokenHierarchy : List Declaration :=
  [{ name := "Q", superclass := some "QA;", interfaces := ["QB;"] }, { name := "A", superclass := some "QBase" },
    { name := "B" }, { name := "B.N" }]

/-- A member that is inherited is not found past a type whose supertypes cannot be read. -/
theorem inheritedMember_broken :
    (∀ ts, ("Q" :: ts).IsChain (Supertype (Index.ofList brokenHierarchy)) → ts.length ≤ maxLinks) ∧
      TransGen (Supertype (Index.ofList brokenHierarchy)) "Q" "B" ∧
      (Index.ofList brokenHierarchy).knows ("B" ++ "." ++ "N") = true ∧
      ¬ ∃ member, inheritedMember (Index.ofList brokenHierarchy) "Q" "N" = .ok (some member) := by
  have rank := lt_of_isRank brokenHierarchy (fun name => if name = "Q" then 1 else 0) (by cbv)
  refine ⟨fun ts chain => Nat.le_trans (length_le_of_rank rank chain) (by decide), ?_, by cbv, ?_⟩
  · exact .single ⟨_, ["A", "B"], rfl, by cbv, by decide⟩
  · cbv
    rintro ⟨member, h⟩
    cases h

end TypeAtlas
