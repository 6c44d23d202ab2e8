import TypeAtlas.Proofs.Outcomes
import TypeAtlas.Proofs.Syntax.TypeUses

/-! What reading the parts of a declaration makes of the types they use: it fails as the encoding of one of
them does, or gives signatures of these uses and of no others. -/

namespace TypeAtlas.Syntax

section

variable (path : Option String) (U : TypeUse → Prop)

def Encoded (w : String) : Prop := ∃ u, U u ∧ u.signature path = .ok w

def Refused (e : Error) : Prop := ∃ u, U u ∧ u.signature path = .error e

/-- All these uses have signatures, and the texts are signatures of uses in `U`. -/
structure Reads (us : List TypeUse) (ws : List String) : Prop where
  encodes : ∀ u ∈ us, ∃ w, u.signature path = .ok w
  encoded : ∀ w ∈ ws, Encoded path U w

end

variable {path : Option String} {U : TypeUse → Prop}

namespace Reads

variable {us vs : List TypeUse} {ws xs : List String}

theorem nil (us_nil : us = []) : Reads path U us [] where
  encodes u hu := absurd hu (by simp [us_nil])
  encoded w hw := absurd hw List.not_mem_nil

theorem append (h : Reads path U us ws) (h' : Reads path U vs xs) : Reads path U (us ++ vs) (ws ++ xs) where
  encodes u hu := (List.mem_append.mp hu).elim (h.encodes u) (h'.encodes u)
  encoded w hw := (List.mem_append.mp hw).elim (h.encoded w) (h'.encoded w)

theorem subset (h : Reads path U us ws) (hs : ∀ w ∈ xs, w ∈ ws) : Reads path U us xs where
  encodes := h.encodes
  encoded w hw := h.encoded w (hs w hw)

theorem flatMap {α β : Type} {as : List α} {bs : List β} {us : α → List TypeUse} {ws : β → List String}
    (h : List.Forall₂ (fun a b => Reads path U (us a) (ws b)) as bs) :
    Reads path U (as.flatMap us) (bs.flatMap ws) := by
  induction h with
  | nil => exact .nil rfl
  | cons h _ ih =>
    rw [List.flatMap_cons, List.flatMap_cons]
    exact h.append ih

end Reads

theorem Reads.single {u : TypeUse} {w : String} (hu : U u) (h : u.signature path = .ok w) : Reads path U [u] [w] where
  encodes v hv := ⟨w, by rw [List.mem_singleton.mp hv, h]⟩
  encoded x hx := ⟨u, hu, by rw [List.mem_singleton.mp hx, h]⟩

/-- What is declared with a type may add dimensions to it. -/
theorem ends_declaredType {type : Option Tree} {dims : Nat} (h : U (.written type dims)) :
    Ends (fun s => ∀ n, (TypeUse.written type n).signature path = .ok (dimensionMarks n ++ s)) (Refused path U)
      (declaredType path type) := by
  cases hs : declaredType path type with
  | ok s =>
    intro n
    rw [TypeUse.signature, hs]
    rfl
  | error e =>
    refine ⟨_, h, ?_⟩
    rw [TypeUse.signature, hs]
    rfl

theorem dimensionMarks_zero (w : String) : dimensionMarks 0 ++ w = w := by
  simp [dimensionMarks]

/-- One use for each of these. -/
theorem ends_mapM {α β : Type} {f : α → Except Error β} (use : α → TypeUse) (sig : β → String) (as : List α)
    (h : ∀ a ∈ as, Ends (fun b => Reads path U [use a] [sig b]) (Refused path U) (f a)) :
    Ends (fun bs => Reads path U (as.map use) (bs.map sig)) (Refused path U) (as.mapM f) := by
  refine (Ends.mapM as h).mono fun bs hbs => ?_
  rw [List.map_eq_flatMap, List.map_eq_flatMap]
  exact Reads.flatMap hbs

theorem ends_declaredTypes {ts : List Tree} (h : ∀ u ∈ Tree.typeUses ts, U u) :
    Ends (Reads path U (Tree.typeUses ts)) (Refused path U) (declaredTypes path ts) := by
  refine (ends_mapM (fun t => .written (some t) 0) id ts fun t ht => ?_).mono fun ws hws => ?_
  · have hu : U (.written (some t) 0) := h _ (List.mem_map_of_mem ht)
    refine (ends_declaredType hu).mono fun s hs => .single hu ?_
    rw [hs, dimensionMarks_zero, id]
  · rwa [List.map_id] at hws

namespace Tree

variable {t : Tree}

theorem ends_typeParameter (h : ∀ u ∈ t.boundUses, U u) :
    Ends (fun p => Reads path U t.boundUses p.bounds) (Refused path U) (t.typeParameter path) :=
  (ends_declaredTypes h).bind fun _ hws => hws

theorem ends_typeParameters (h : ∀ u ∈ t.typeParameterUses, U u) :
    Ends (fun ps => Reads path U t.typeParameterUses (ps.flatMap (·.bounds))) (Refused path U)
      (t.typeParameters path) := by
  unfold typeParameters
  unfold typeParameterUses at h ⊢
  cases hl : t.child? "type_parameters" with
  | none => exact .nil rfl
  | some list =>
    rw [hl] at h
    refine (Ends.mapM _ fun p hp => ends_typeParameter fun u hu => ?_).bind fun ps hps => ?_
    · exact h u (List.mem_flatMap.mpr ⟨p, hp, hu⟩)
    -- the parameters without a name are left out, their bounds have been read
    · refine (Reads.flatMap hps).subset fun w hw => ?_
      obtain ⟨p, hp, hw⟩ := List.mem_flatMap.mp hw
      exact List.mem_flatMap.mpr ⟨p, (List.mem_filter.mp hp).1, hw⟩

def Supertypes.signatures (s : Supertypes) : List String := s.superclass.toList ++ s.interfaces

theorem ends_addSupertypes {s : Supertypes} (hs : ∀ w ∈ s.signatures, Encoded path U w)
    (h : ∀ u ∈ t.clauseUses, U u) :
    Ends (fun s' => Reads path U t.clauseUses s'.signatures) (Refused path U) (addSupertypes path s t) := by
  have interfaces (uses : t.clauseUses = typeUses t.listedTypes) :
      Ends (fun s' => Reads path U t.clauseUses s'.signatures) (Refused path U)
        (declaredTypes path t.listedTypes >>= fun ws => .ok { s with interfaces := s.interfaces ++ ws }) := by
    rw [uses] at h ⊢
    refine (ends_declaredTypes h).bind fun ws hws => ⟨hws.encodes, fun w hw => ?_⟩
    rcases List.mem_append.mp hw with hw | hw
    · exact hs w (List.mem_append_left _ hw)
    · rcases List.mem_append.mp hw with hw | hw
      · exact hs w (List.mem_append_right _ hw)
      · exact hws.encoded w hw
  unfold addSupertypes
  split
  · rename_i kind
    have uses : t.clauseUses = [.written t.parts.getLast? 0] := by simp [clauseUses, kind]
    rw [uses] at h ⊢
    have hu := h _ List.mem_cons_self
    refine (ends_declaredType hu).bind fun w hw => ⟨(Reads.single hu (hw 0)).encodes, fun x hx => ?_⟩
    rcases List.mem_append.mp hx with hx | hx
    · rw [List.mem_singleton.mp hx, ← dimensionMarks_zero w]
      exact ⟨_, hu, hw 0⟩
    · exact hs x (List.mem_append_right _ hx)
  · rename_i kind
    exact interfaces (by simp [clauseUses, kind])
  · rename_i kind
    exact interfaces (by simp [clauseUses, kind])
  · rename_i h₁ h₂ h₃
    have uses : t.clauseUses = [] := by
      unfold clauseUses
      split
      · exact absurd ‹_› h₁
      · exact absurd ‹_› h₂
      · exact absurd ‹_› h₃
      · rfl
    exact ⟨fun u hu => absurd hu (by simp [uses]), hs⟩

theorem ends_foldlM {ts : List Tree} {s : Supertypes} (hs : ∀ w ∈ s.signatures, Encoded path U w)
    (h : ∀ u ∈ ts.flatMap clauseUses, U u) :
    Ends (fun s' => Reads path U (ts.flatMap clauseUses) s'.signatures) (Refused path U)
      (ts.foldlM (addSupertypes path) s) := by
  induction ts generalizing s with
  | nil => exact ⟨fun u hu => absurd hu List.not_mem_nil, hs⟩
  | cons t ts ih =>
    rw [List.flatMap_cons] at h ⊢
    rw [List.foldlM_cons]
    refine (ends_addSupertypes hs fun u hu => h u (List.mem_append_left _ hu)).bind fun s₁ h₁ => ?_
    refine (ih h₁.encoded fun u hu => h u (List.mem_append_right _ hu)).mono fun s₂ h₂ => ⟨?_, h₂.encoded⟩
    intro u hu
    exact (List.mem_append.mp hu).elim (h₁.encodes u) (h₂.encodes u)

theorem ends_supertypes (h : ∀ u ∈ t.children.flatMap clauseUses, U u) :
    Ends (fun s => Reads path U (t.children.flatMap clauseUses) s.signatures) (Refused path U) (t.supertypes path) :=
  ends_foldlM (fun _ hw => absurd hw List.not_mem_nil) h

theorem ends_parameter (h : U t.parameterUse) :
    Ends (fun p => Reads path U [t.parameterUse] [Resolution.parameterSignature p]) (Refused path U)
      (t.parameter path) := by
  unfold parameter
  unfold parameterUse at h ⊢
  split
  · rename_i kind
    rw [if_pos kind] at h
    exact (ends_declaredType h).bind fun w hw => .single h (hw 1)
  · rename_i kind
    rw [if_neg kind] at h
    exact (ends_declaredType h).bind fun w hw => .single h (hw _)

theorem ends_parameters (h : ∀ u ∈ t.parameterUses, U u) :
    Ends (fun ps => Reads path U t.parameterUses (ps.map Resolution.parameterSignature)) (Refused path U)
      (t.parameters path) := by
  unfold parameters
  unfold parameterUses at h ⊢
  cases hl : t.child? "parameters" with
  | none => exact .nil rfl
  | some list =>
    rw [hl] at h
    exact ends_mapM parameterUse _ _ fun p hp => ends_parameter (h _ (List.mem_map_of_mem hp))

theorem ends_throwsTypes (h : ∀ u ∈ t.throwsUses, U u) :
    Ends (Reads path U t.throwsUses) (Refused path U) (t.throwsTypes path) := ends_declaredTypes h

/-! ### Members -/

theorem ends_fields {o : Owner} (place : o.place.path = path) (first : U (.written (t.child? "type") 0))
    (h : ∀ d ∈ ofKind .variableDeclarator t.namedChildren, U (.written (t.child? "type") d.dimensions)) :
    Ends (fun fs => Reads path U (.written (t.child? "type") 0 ::
        (ofKind .variableDeclarator t.namedChildren).map fun d => .written (t.child? "type") d.dimensions)
      (fs.map (·.signature))) (Refused path U) (t.fields o) := by
  unfold fields
  rw [place]
  refine (ends_declaredType first).bind fun w hw => ⟨fun u hu => ?_, fun x hx => ?_⟩
  · rcases List.mem_cons.mp hu with rfl | hu
    · exact ⟨_, hw 0⟩
    · obtain ⟨d, -, rfl⟩ := List.mem_map.mp hu
      exact ⟨_, hw _⟩
  · obtain ⟨f, hf, rfl⟩ := List.mem_map.mp hx
    obtain ⟨d, hd, rfl⟩ := List.mem_map.mp hf
    exact ⟨_, h d hd, hw _⟩

theorem ends_completeMethod {o : Owner} {m : MethodDecl} (place : o.place.path = path)
    (returns : Encoded path U m.returns)
    (parameters : ∀ p ∈ m.parameters, Encoded path U (Resolution.parameterSignature p))
    (h : ∀ u ∈ t.methodUses, U u) :
    Ends (fun m' => Reads path U t.methodUses m'.signatures) (Refused path U) (completeMethod o m t) := by
  unfold methodUses at h ⊢
  unfold completeMethod
  rw [place]
  refine (ends_typeParameters fun u hu => h u ?_).bind fun tps htps => ?_
  · exact List.mem_append_left _ (List.mem_append_left _ hu)
  refine (ends_parameters fun u hu => h u ?_).bind fun ps hps => ?_
  · exact List.mem_append_left _ (List.mem_append_right _ hu)
  refine (ends_throwsTypes fun u hu => h u (List.mem_append_right _ hu)).bind fun ws hws => ?_
  have all := (htps.append hps).append hws
  refine ⟨all.encodes, fun w hw => ?_⟩
  simp only [MethodDecl.signatures, List.map_append, List.mem_cons, List.mem_append] at hw
  rcases hw with rfl | (hw | hw | hw) | hw
  · exact returns
  · exact htps.encoded w hw
  · obtain ⟨p, hp, rfl⟩ := List.mem_map.mp hw
    exact parameters p hp
  · exact hps.encoded w hw
  · exact hws.encoded w hw

theorem ends_method {o : Owner} (place : o.place.path = path) (returns : U (.written (t.child? "type") t.dimensions))
    (h : ∀ u ∈ t.methodUses, U u) :
    Ends (fun m => Reads path U (.written (t.child? "type") t.dimensions :: t.methodUses) m.signatures)
      (Refused path U) (t.method o) := by
  unfold method
  rw [place]
  refine (ends_declaredType returns).bind fun w hw => ?_
  refine (ends_completeMethod place ⟨_, returns, hw _⟩ (fun p hp => absurd hp List.not_mem_nil) h).mono fun m hm => ?_
  exact ⟨List.forall_mem_cons.mpr ⟨⟨_, hw _⟩, hm.encodes⟩, hm.encoded⟩

theorem ends_constructor {o : Owner} {fs : List FieldDecl} (place : o.place.path = path) (returns : U .constructed)
    (hfs : ∀ f ∈ fs, Encoded path U f.signature) (h : ∀ u ∈ t.methodUses, U u) :
    Ends (fun m => Reads path U (.constructed :: t.methodUses) m.signatures) (Refused path U) (t.constructor o fs) := by
  unfold constructor
  refine (ends_completeMethod place ⟨_, returns, rfl⟩ (fun p hp => ?_) h).mono fun m hm => ?_
  · dsimp only at hp
    split at hp
    · obtain ⟨f, hf, rfl⟩ := List.mem_map.mp hp
      exact hfs f hf
    · exact absurd hp List.not_mem_nil
  · exact ⟨List.forall_mem_cons.mpr ⟨⟨_, rfl⟩, hm.encodes⟩, hm.encoded⟩

/-! ### Heads -/

theorem ends_components (h : ∀ u ∈ t.parameterUses, U u) :
    Ends (fun fs => Reads path U t.parameterUses (fs.map (·.signature))) (Refused path U) (t.components path) := by
  unfold components
  refine (ends_parameters h).bind fun ps hps => hps.subset fun w hw => ?_
  obtain ⟨f, hf, rfl⟩ := List.mem_map.mp hw
  obtain ⟨p, hp, rfl⟩ := List.mem_map.mp hf
  exact List.mem_map_of_mem hp

theorem ends_declarationHead {p : Place} {kind : TypeKind} (place : p.path = path) (h : ∀ u ∈ t.headUses, U u) :
    Ends (fun d => Reads path U t.headUses (d.headSignatures ++ d.fields.map (·.signature)) ∧
      d.name = Text.qualify p.owner t.nameText) (Refused path U) (t.declarationHead p kind) := by
  unfold headUses at h ⊢
  unfold declarationHead
  rw [place]
  refine (ends_typeParameters fun u hu => h u ?_).bind fun tps htps => ?_
  · exact List.mem_append_left _ (List.mem_append_left _ hu)
  refine (ends_supertypes fun u hu => h u ?_).bind fun s hs => ?_
  · exact List.mem_append_left _ (List.mem_append_right _ hu)
  have outside := htps.append hs
  dsimp only
  split
  · rename_i kind
    have uses : t.componentUses = .recordClass :: t.parameterUses := if_pos kind
    rw [uses] at h ⊢
    have record : Reads path U [.recordClass] ["Qjava.lang.Record;"] :=
      .single (h _ (List.mem_append_right _ List.mem_cons_self)) rfl
    refine (ends_components fun u hu => h u (List.mem_append_right _ (List.mem_cons_of_mem _ hu))).bind fun fs hfs => ?_
    refine ⟨(outside.append (record.append hfs)).subset fun w hw => ?_, rfl⟩
    simp only [Declaration.headSignatures, Supertypes.signatures, Option.toList_some, List.mem_append,
      List.mem_singleton] at hw ⊢
    tauto
  · rename_i kind
    have uses : t.componentUses = [] := if_neg kind
    rw [uses, List.append_nil]
    refine ⟨outside.subset fun w hw => ?_, rfl⟩
    rwa [List.map_nil, List.append_nil] at hw

end Tree
end TypeAtlas.Syntax
