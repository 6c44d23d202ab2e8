import Mathlib
import TypeAtlas.Proofs.Syntax.Parts
import TypeAtlas.Proofs.Text.Dotted

/-! Reading a file against the types that are used in it. Reading fails just in case one of the uses has no
signature, and as that use does. Else every signature in the declarations belongs to a use, and it can be
read just in case the use is sound. -/

namespace TypeAtlas.Syntax

open Signature (parse)

variable {path : Option String} {U : TypeUse → Prop}

def Encodes (path : Option String) (P : TypeUse → Prop) : Prop := ∀ u, P u → ∃ w, u.signature path = .ok w

/-- The signatures in all members are those of uses in `U`. -/
structure Members.Encoded (path : Option String) (U : TypeUse → Prop) (m : Members) : Prop where
  fields : ∀ f ∈ m.fields, Syntax.Encoded path U f.signature
  methods : ∀ x ∈ m.methods, ∀ w ∈ x.signatures, Syntax.Encoded path U w
  nested : ∀ d ∈ m.nested, ∀ w ∈ d.signatures, Syntax.Encoded path U w

theorem Members.Encoded.close {m : Members} {d : Declaration} (hm : m.Encoded path U)
    (hd : ∀ w ∈ d.headSignatures, Syntax.Encoded path U w) :
    ∀ e ∈ m.close d, ∀ w ∈ e.signatures, Syntax.Encoded path U w := by
  intro e he w hw
  rcases List.mem_cons.mp he with rfl | he
  · rcases List.mem_append.mp hw with hw | hw
    · rcases List.mem_append.mp hw with hw | hw
      · exact hd w hw
      · obtain ⟨f, hf, rfl⟩ := List.mem_map.mp hw
        exact hm.fields f hf
    · obtain ⟨x, hx, hw⟩ := List.mem_flatMap.mp hw
      exact hm.methods x hx w hw
  · exact hm.nested e he w hw

/-- Work on members that settles the uses in `P`: it fails as some use does, or all of these have signatures. -/
def Gathers (path : Option String) (U : TypeUse → Prop) (P : TypeUse → Prop) : Warned Members → Prop :=
  Settles (fun m => m.Encoded path U ∧ Encodes path P) (Refused path U)

def Declares (path : Option String) (U : TypeUse → Prop) (P : TypeUse → Prop) : Warned (List Declaration) → Prop :=
  Settles (fun ds => (∀ d ∈ ds, ∀ w ∈ d.signatures, Syntax.Encoded path U w) ∧ Encodes path P) (Refused path U)

namespace Tree

variable {t : Tree} {owner : String} {u : TypeUse}

structure Opens (path : Option String) (U : TypeUse → Prop) (p : Place) (t : Tree) (d : Declaration) (o : Owner) :
    Prop where
  place : o.place = p
  named : t.nameText ≠ ""
  name : Text.simpleName o.name = Text.simpleName t.nameText
  reads : Reads path U t.headUses (d.headSignatures ++ d.fields.map (·.signature))

theorem settles_openType {p : Place} {kind : TypeKind} (place : p.path = path)
    (h : t.nameText ≠ "" → ∀ u ∈ t.headUses, U u) :
    Settles (fun r => (r = none → t.nameText = "") ∧ ∀ d o, r = some (d, o) → Opens path U p t d o) (Refused path U)
      (t.openType p kind) := by
  unfold openType
  split
  · rename_i nameless
    refine (Settles.of_warn _).bind fun _ _ => .of_pure ⟨fun _ => nameless, ?_⟩
    intro d o h
    cases h
  · rename_i named
    refine (Settles.of_except (ends_declarationHead place (h named))).bind fun d ⟨reads, name⟩ => .of_pure ⟨nofun, ?_⟩
    intro d' o h
    cases h
    exact ⟨rfl, named, by rw [name, Text.simpleName_qualify], reads⟩

/-! ### Members -/

theorem isNamed_of_memberUses (h : t.MemberUses owner u) : t.isNamed := by
  cases h with
  | member named _ => exact named
  | constants named _ _ _ => exact named
  | nested named _ _ => exact named

/-- A member that is no type and holds no members. -/
theorem mem_memberUses (h : t.MemberUses owner u) (constants : t.kind ≠ .enumBodyDeclarations)
    (type : t.kind.typeKind? = none) : u ∈ t.memberUses owner := by
  cases h with
  | member _ mem => exact mem
  | constants _ kind => exact absurd kind constants
  | nested _ declares => simp [DeclaresType, type] at declares

theorem uses_of_memberUses {kind : TypeKind} (h : t.MemberUses owner u) (type : t.kind.typeKind? = some kind) :
    t.nameText ≠ "" ∧ t.Uses u := by
  cases h with
  | member _ mem =>
    unfold memberUses at mem
    split at mem <;> simp_all [NodeKind.typeKind?]
  | constants _ constants =>
    rw [constants] at type
    cases type
  | nested _ declares uses => exact ⟨declares.2, uses⟩

def AnyUses (owner : String) (ts : List Tree) (u : TypeUse) : Prop := ∃ t ∈ ts, t.MemberUses owner u

/-- The uses in the body among these nodes, the first if there are several. -/
def BodyUses (owner : String) (ts : List Tree) (u : TypeUse) : Prop :=
  ∃ b, ts.find? (·.field == some "body") = some b ∧ AnyUses owner b.children u

/-- The uses in a type are those in its head and its body. -/
theorem uses_iff : t.Uses u ↔ u ∈ t.headUses ∨ BodyUses (Text.simpleName t.nameText) t.children u := by
  refine ⟨?_, ?_⟩
  · intro h
    cases h with
    | head mem => exact .inl mem
    | body body mem h => exact .inr ⟨_, body, _, mem, h⟩
  · rintro (mem | ⟨b, body, c, mem, h⟩)
    · exact .head mem
    · exact .body body mem h

/-- Adds what is read from one member. -/
theorem gathers_add {α : Type} {x : Except Error α} {us : List TypeUse} {ws : α → List String} {f : α → Members}
    {P : TypeUse → Prop} (hx : Ends (fun a => Reads path U us (ws a)) (Refused path U) x) (hP : ∀ u, P u → u ∈ us)
    (hf : ∀ a, (∀ w ∈ ws a, Syntax.Encoded path U w) → (f a).Encoded path U) :
    Gathers path U P (liftM x >>= fun a => pure (f a)) :=
  (Settles.of_except hx).bind fun a reads => .of_pure ⟨hf a reads.encoded, fun u hu => reads.encodes u (hP u hu)⟩

section

variable {o : Owner} {m : Members} (place : o.place.path = path) (hm : m.Encoded path U) (named : t.isNamed)
  (h : ∀ u, t.MemberUses (Text.simpleName o.name) u → U u)

include named h

theorem mem_of_memberUses (hu : u ∈ t.memberUses (Text.simpleName o.name)) : U u := h u (.member named hu)

include hm

theorem gathers_constant (kind : t.kind = .enumConstant) :
    Gathers path U (t.MemberUses (Text.simpleName o.name))
      (pure { m with fields := m.fields ++ [t.constant o] }) := by
  have uses : t.memberUses (Text.simpleName o.name) = [.constant (Text.simpleName o.name)] := by simp [memberUses, kind]
  have hU : ∀ u ∈ t.memberUses (Text.simpleName o.name), U u := fun u => mem_of_memberUses named h
  refine .of_pure ⟨⟨fun f hf => ?_, hm.methods, hm.nested⟩, fun u hu => ?_⟩
  · rcases List.mem_append.mp hf with hf | hf
    · exact hm.fields f hf
    · rw [List.mem_singleton.mp hf]
      exact ⟨_, hU (.constant (Text.simpleName o.name)) (by simp [uses]), rfl⟩
  · have mem := mem_memberUses hu (by simp [kind]) (by simp [kind, NodeKind.typeKind?])
    rw [uses] at mem
    exact ⟨_, by rw [List.mem_singleton.mp mem]; rfl⟩

/-- Adds a method or constructor. -/
theorem gathers_method {us : List TypeUse} {x : Except Error MethodDecl}
    (uses : t.memberUses (Text.simpleName o.name) = us) (constants : t.kind ≠ .enumBodyDeclarations)
    (type : t.kind.typeKind? = none)
    (hx : (∀ u ∈ us, U u) → Ends (fun x => Reads path U us x.signatures) (Refused path U) x) :
    Gathers path U (t.MemberUses (Text.simpleName o.name))
      (liftM x >>= fun x => pure { m with methods := m.methods ++ [x] }) := by
  have hU : ∀ u ∈ t.memberUses (Text.simpleName o.name), U u := fun u => mem_of_memberUses named h
  rw [uses] at hU
  refine gathers_add (hx hU) (fun u hu => uses ▸ mem_memberUses hu constants type) fun x hx => ?_
  refine ⟨hm.fields, fun y hy => ?_, hm.nested⟩
  rcases List.mem_append.mp hy with hy | hy
  · exact hm.methods y hy
  · rw [List.mem_singleton.mp hy]
    exact hx

include place

theorem gathers_fields (kind : t.kind = .fieldDeclaration ∨ t.kind = .constantDeclaration) :
    Gathers path U (t.MemberUses (Text.simpleName o.name))
      (liftM (t.fields o) >>= fun fs => pure { m with fields := m.fields ++ fs }) := by
  have uses : t.memberUses (Text.simpleName o.name) = .written (t.child? "type") 0 ::
      (ofKind .variableDeclarator t.namedChildren).map fun d => .written (t.child? "type") d.dimensions := by
    rcases kind with kind | kind <;> simp [memberUses, kind]
  have hU : ∀ u ∈ t.memberUses (Text.simpleName o.name), U u := fun u => mem_of_memberUses named h
  have mem (u : TypeUse) (hu : t.MemberUses (Text.simpleName o.name) u) : u ∈ t.memberUses (Text.simpleName o.name) :=
    mem_memberUses hu (by rcases kind with kind | kind <;> simp [kind])
      (by rcases kind with kind | kind <;> simp [kind, NodeKind.typeKind?])
  rw [uses, List.forall_mem_cons] at hU
  rw [uses] at mem
  refine gathers_add (ends_fields place hU.1 fun d hd => hU.2 _ (List.mem_map_of_mem hd)) mem fun fs hfs => ?_
  refine ⟨fun f hf => ?_, hm.methods, hm.nested⟩
  rcases List.mem_append.mp hf with hf | hf
  · exact hm.fields f hf
  · exact hfs _ (List.mem_map_of_mem hf)

end

/-- Closes a type that was opened, once its body has been read. -/
theorem settles_close {α : Type} {p : Place} {d : Declaration} {inner : Owner} {goal : α → Prop}
    {f : Members → α} (opens : Opens path U p t d inner)
    (body : Settles (fun m => m.Encoded path U ∧ Encodes path (BodyUses (Text.simpleName inner.name) t.children))
      (Refused path U) (readBody inner { fields := d.fields } t.children))
    (hf : ∀ m, (∀ e ∈ m.close d, ∀ w ∈ e.signatures, Syntax.Encoded path U w) → Encodes path t.Uses → goal (f m)) :
    Settles goal (Refused path U)
      (readBody inner { fields := d.fields } t.children >>= fun m => (pure (f m) : Warned α)) := by
  refine body.bind fun m ⟨encoded, encodes⟩ => .of_pure (hf m ?_ fun u hu => ?_)
  · exact encoded.close fun w hw => opens.reads.encoded w (List.mem_append_left _ hw)
  · rcases uses_iff.mp hu with hu | hu
    · exact opens.reads.encodes u hu
    · exact encodes u (by rwa [opens.name])

theorem encoded_components {p : Place} {d : Declaration} {inner : Owner} (opens : Opens path U p t d inner) :
    Members.Encoded path U { fields := d.fields } where
  fields _ hf := opens.reads.encoded _ (List.mem_append_right _ (List.mem_map_of_mem hf))
  methods _ hx := absurd hx List.not_mem_nil
  nested _ he := absurd he List.not_mem_nil

mutual

theorem gathers_readBody (o : Owner) (place : o.place.path = path) (m : Members) (hm : m.Encoded path U) :
    (ts : List Tree) → (∀ u, BodyUses (Text.simpleName o.name) ts u → U u) →
    Gathers path U (BodyUses (Text.simpleName o.name) ts) (readBody o m ts)
  | [], _ => .of_pure ⟨hm, nofun⟩
  | t :: ts, h => by
    rw [readBody]
    unfold BodyUses at h ⊢
    split
    · rename_i body
      have first : (t :: ts).find? (·.field == some "body") = some t := List.find?_cons_of_pos (by simp [body])
      simp only [first, Option.some.injEq, exists_eq_left'] at h ⊢
      exact gathers_readInside o place m hm t h
    · rename_i body
      have later : (t :: ts).find? (·.field == some "body") = ts.find? (·.field == some "body") :=
        List.find?_cons_of_neg (by simpa using body)
      rw [later] at h ⊢
      exact gathers_readBody o place m hm ts h

theorem gathers_readInside (o : Owner) (place : o.place.path = path) (m : Members) (hm : m.Encoded path U) :
    (t : Tree) → (∀ u, AnyUses (Text.simpleName o.name) t.children u → U u) →
    Gathers path U (AnyUses (Text.simpleName o.name) t.children) (readInside o m t)
  | ⟨_, _, _, _, _, children⟩, h => gathers_readMembers o place m hm children h

theorem gathers_readMembers (o : Owner) (place : o.place.path = path) (m : Members) (hm : m.Encoded path U) :
    (ts : List Tree) → (∀ u, AnyUses (Text.simpleName o.name) ts u → U u) →
    Gathers path U (AnyUses (Text.simpleName o.name) ts) (readMembers o m ts)
  | [], _ => .of_pure ⟨hm, nofun⟩
  | t :: ts, h => by
    rw [readMembers]
    refine (gathers_readMember o place m hm t fun u hu => h u ⟨t, List.mem_cons_self, hu⟩).bind fun m₁ ⟨h₁, e₁⟩ => ?_
    refine Settles.mono (gathers_readMembers o place m₁ h₁ ts fun u ⟨c, hc, hu⟩ => h u ⟨c, List.mem_cons_of_mem t hc, hu⟩)
      fun m₂ ⟨h₂, e₂⟩ => ⟨h₂, fun u ⟨c, hc, hu⟩ => ?_⟩
    rcases List.mem_cons.mp hc with rfl | hc
    · exact e₁ u hu
    · exact e₂ u ⟨c, hc, hu⟩

theorem gathers_readMember (o : Owner) (place : o.place.path = path) (m : Members) (hm : m.Encoded path U) :
    (t : Tree) → (∀ u, t.MemberUses (Text.simpleName o.name) u → U u) →
    Gathers path U (t.MemberUses (Text.simpleName o.name)) (readMember o m t)
  | ⟨kind, isNamed, field, text, line, children⟩, h => by
    unfold readMember
    dsimp only
    split
    · rename_i unnamed
      refine .of_pure ⟨hm, fun u hu => ?_⟩
      have named := isNamed_of_memberUses hu
      simp at named unnamed
      simp [unnamed] at named
    · rename_i named
      have named : isNamed = true := by simpa using named
      split
      · exact gathers_constant hm named h rfl
      · refine Settles.mono (gathers_readMembers o place m hm children fun u ⟨c, hc, hu⟩ => ?_) fun m' ⟨h', e'⟩ => ?_
        · exact h u (.constants named rfl hc hu)
        · refine ⟨h', fun u hu => ?_⟩
          cases hu with
          | member _ mem => exact absurd mem List.not_mem_nil
          | constants _ _ mem hu => exact e' u ⟨_, mem, hu⟩
          | nested _ declares _ => exact absurd declares.1 (by simp [NodeKind.typeKind?])
      · exact gathers_fields place hm named h (.inl rfl)
      · exact gathers_fields place hm named h (.inr rfl)
      · exact gathers_method hm named h rfl nofun rfl fun hU =>
          ends_method place (hU _ List.mem_cons_self) fun u hu => hU u (List.mem_cons_of_mem _ hu)
      · exact gathers_method hm named h rfl nofun rfl fun hU =>
          ends_method place (hU _ List.mem_cons_self) fun u hu => hU u (List.mem_cons_of_mem _ hu)
      · exact gathers_method hm named h rfl nofun rfl fun hU =>
          ends_constructor place (hU _ List.mem_cons_self) hm.fields fun u hu => hU u (List.mem_cons_of_mem _ hu)
      · exact gathers_method hm named h rfl nofun rfl fun hU =>
          ends_constructor place (hU _ List.mem_cons_self) hm.fields fun u hu => hU u (List.mem_cons_of_mem _ hu)
      · rename_i constant body field₁ field₂ method₁ method₂ constructor₁ constructor₂
        split
        · rename_i type
          refine .of_pure ⟨hm, fun u hu => ?_⟩
          have mem := mem_memberUses hu body type
          unfold memberUses at mem
          split at mem <;> rename_i kind
          · exact absurd kind constant
          · exact absurd kind field₁
          · exact absurd kind field₂
          · exact absurd kind method₁
          · exact absurd kind method₂
          · exact absurd kind constructor₁
          · exact absurd kind constructor₂
          · exact absurd mem List.not_mem_nil
        · rename_i typeKind type
          have outside (isStatic : Bool) : (o.place.member o.name o.scope isStatic).path = path := place
          have hU (name : nameText ⟨kind, isNamed, field, text, line, children⟩ ≠ "") (u : TypeUse)
              (hu : Uses ⟨kind, isNamed, field, text, line, children⟩ u) : U u :=
            h u (.nested named ⟨by rw [type]; rfl, name⟩ hu)
          refine (settles_openType (outside _) fun name u hu => hU name u (.head hu)).bind fun r ⟨nameless, opened⟩ => ?_
          cases r with
          | none =>
            refine .of_pure ⟨hm, fun u hu => ?_⟩
            exact absurd (nameless rfl) (uses_of_memberUses hu type).1
          | some r =>
            obtain ⟨d, inner⟩ := r
            have opens := opened d inner rfl
            have inside : inner.place.path = path := opens.place ▸ outside _
            have name : nameText ⟨kind, isNamed, field, text, line, children⟩ ≠ "" := opens.named
            refine settles_close opens (gathers_readBody inner inside _ (encoded_components opens) children ?_) ?_
            · intro u hu
              rw [opens.name] at hu
              exact hU name u (uses_iff.mpr (.inr hu))
            · intro body closed uses
              refine ⟨⟨hm.fields, hm.methods, fun e he => ?_⟩, fun u hu => ?_⟩
              · exact (List.mem_append.mp he).elim (hm.nested e) (closed e)
              · exact uses u (uses_of_memberUses hu type).2

end

theorem declares_readType {p : Place} {kind : TypeKind} (place : p.path = path) (type : t.kind.typeKind? = some kind)
    (h : t.DeclaresType → ∀ u, t.Uses u → U u) :
    Declares path U (fun u => t.DeclaresType ∧ t.Uses u) (t.readType p kind) := by
  have hU (name : t.nameText ≠ "") := h ⟨by rw [type]; rfl, name⟩
  unfold readType
  refine (settles_openType place fun name u hu => hU name u (.head hu)).bind fun r ⟨nameless, opened⟩ => ?_
  cases r with
  | none => exact .of_pure ⟨fun d hd => absurd hd List.not_mem_nil, fun u ⟨declares, _⟩ => absurd (nameless rfl) declares.2⟩
  | some r =>
    obtain ⟨d, inner⟩ := r
    have opens := opened d inner rfl
    have inside : inner.place.path = path := by rw [opens.place, place]
    refine settles_close opens (gathers_readBody inner inside _ (encoded_components opens) t.children ?_) ?_
    · intro u hu
      rw [opens.name] at hu
      exact hU opens.named u (uses_iff.mpr (.inr hu))
    · exact fun body closed uses => ⟨closed, fun u hu => uses u hu.2⟩

end Tree

theorem topUses_cons {t : Tree} {ts : List Tree} {u : TypeUse} :
    TopUses (t :: ts) u ↔ (t.DeclaresType ∧ t.Uses u) ∨ TopUses ts u := by
  simp [TopUses]

theorem declares_readTop {unit : CompilationUnit} : (ts : List Tree) → (package : String) →
    (∀ u, TopUses ts u → U u) → Declares path U (TopUses ts) (readTop path unit package ts)
  | [], _, _ => .of_pure ⟨fun d hd => absurd hd List.not_mem_nil, nofun⟩
  | t :: ts, package, h => by
    have rest (package : String) : Declares path U (TopUses ts) (readTop path unit package ts) :=
      declares_readTop ts package fun u hu => h u (topUses_cons.mpr (.inr hu))
    have only (package : String) (type : t.kind.typeKind? = none) :
        Declares path U (TopUses (t :: ts)) (readTop path unit package ts) := by
      refine (rest package).mono fun ds ⟨encoded, encodes⟩ => ⟨encoded, fun u hu => ?_⟩
      rcases topUses_cons.mp hu with ⟨declares, _⟩ | hu
      · simp [Tree.DeclaresType, type] at declares
      · exact encodes u hu
    unfold readTop
    split
    · rename_i kind
      exact only _ (by rw [kind]; rfl)
    · rename_i kind
      have type : t.kind.typeKind? = none := by rw [kind]; rfl
      dsimp only
      split
      · exact (Settles.of_warn _).bind fun _ _ => only _ type
      · exact only _ type
    · split
      · rename_i type
        exact only _ type
      · rename_i type
        refine (Tree.declares_readType rfl type fun declares u hu => h u (topUses_cons.mpr (.inl ⟨declares, hu⟩))).bind
          fun first ⟨encoded, encodes⟩ => (rest package).bind fun others ⟨encodeds, encodess⟩ => .of_pure ⟨?_, ?_⟩
        · exact fun d hd => (List.mem_append.mp hd).elim (encoded d) (encodeds d)
        · exact fun u hu => (topUses_cons.mp hu).elim (encodes u) (encodess u)

theorem declares_read (f : ParsedFile) (path : Option String) : Declares path f.Uses f.Uses (f.read path) := by
  unfold ParsedFile.read
  split
  · exact (Settles.of_warn _).bind fun _ _ => declares_readTop _ _ fun u hu => hu
  · exact declares_readTop _ _ fun u hu => hu

/-- Reading a file fails just in case a type used in it has no signature, and says where that type stands if
there is one. Else the signatures in the declarations are those of uses, and such a signature can be
read just in case its use is sound. -/
theorem read_signatures (f : ParsedFile) (path : Option String) :
    (∀ e, (f.read path).outcome.1 = .error e → ∃ type dims, f.Uses (.written type dims) ∧
      (type = none ∧ e = .missingType path ∨ ∃ t problem, type = some t ∧ t.signature = .error problem ∧
        e = .declaredType problem t.line path)) ∧
      ∀ ds, (f.read path).outcome.1 = .ok ds →
        (∀ u, f.Uses u → ∃ w, u.signature path = .ok w) ∧
        ∀ d ∈ ds, ∀ w ∈ d.signatures, ∃ u, f.Uses u ∧ u.signature path = .ok w ∧
          (u.Sound → ∃ sig, parse w = .ok sig) ∧ (u.PlainNames → (∃ sig, parse w = .ok sig) → u.Sound) := by
  have ends : Ends _ _ (f.read path).outcome.1 := declares_read f path []
  refine ⟨fun e he => ?_, fun ds hds => ?_⟩
  · rw [he] at ends
    obtain ⟨u, hu, failed⟩ := ends
    obtain ⟨type, dims, rfl, place⟩ := TypeUse.signature_failed failed
    exact ⟨type, dims, hu, place⟩
  · rw [hds] at ends
    obtain ⟨encoded, encodes⟩ := ends
    refine ⟨encodes, fun d hd w hw => ?_⟩
    obtain ⟨u, hu, hs⟩ := encoded d hd w hw
    exact ⟨u, hu, hs, u.parses hs, fun plain ⟨sig, parses⟩ => u.sound hs plain parses⟩

/-- `class A { void[] x; }` -/
def voidArrayFile : ParsedFile where
  root := node (.other "program") "class A { void[] x; }" [
    node .classDeclaration "class A { void[] x; }" [
      ⟨.identifier, true, some "name", "A", 1, []⟩,
      ⟨.other "class_body", true, some "body", "{ void[] x; }", 1, [
        node .fieldDeclaration "void[] x;" [
          ⟨.arrayType, true, some "type", "void[]", 1, [⟨.voidType, true, some "element", "void", 1, []⟩, dimension]⟩,
          ⟨.variableDeclarator, true, some "declarator", "x", 1, [⟨.identifier, true, some "name", "x", 1, []⟩]⟩]]⟩]]

def voidArrayDeclaration : Declaration where
  name := "A"
  fields := [⟨"x", "[V", [], false⟩]
  scope := some (.lexical { enclosing := ["A"] })

theorem read_signatures_voidArray :
    (voidArrayFile.read none).outcome.1 = .ok [voidArrayDeclaration] ∧ "[V" ∈ voidArrayDeclaration.signatures ∧
      ∃ u, voidArrayFile.Uses u ∧ u.signature none = .ok "[V" ∧ ¬ u.Sound := by
  have given : (voidArrayFile.read none).outcome.1 = .ok [voidArrayDeclaration] := by cbv
  have mem : "[V" ∈ voidArrayDeclaration.signatures := by decide
  obtain ⟨-, signatures⟩ := (read_signatures voidArrayFile none).2 _ given
  obtain ⟨u, used, code, parses, -⟩ := signatures _ List.mem_cons_self "[V" mem
  refine ⟨given, mem, u, used, code, fun sound => ?_⟩
  obtain ⟨sig, hs⟩ := parses sound
  have fault : parse "[V" = .error ⟨.misplacedVoid, 1⟩ := by cbv
  rw [fault] at hs
  cases hs

end TypeAtlas.Syntax
