import TypeAtlas.Proofs.Runs
import TypeAtlas.Syntax.Reader

/-! A file declares the same wherever it lies. Its path is in errors and warnings and is the source file of
its declarations, and nothing else reads it: what a reading gives, a reading without a path gives, but for
the source files. -/

namespace TypeAtlas

def Declaration.unplaced (d : Declaration) : Declaration := { d with sourceFile := none }

namespace Syntax

variable {path : Option String} {α β γ : Type}

/-- What `x` gives, `y` gives, changed by `g`. -/
def KeptBy (g : α → β) (x : Except Error α) (y : Except Error β) : Prop := ∀ a, x = .ok a → y = .ok (g a)

namespace KeptBy

theorem of_ok (g : α → β) (a : α) : KeptBy g (.ok a) (.ok (g a)) := by
  intro b h
  cases h
  rfl

theorem bind {x y : Except Error α} {f : α → Except Error β} {f' : α → Except Error γ} {k : β → γ}
    (hx : KeptBy id x y) (hf : ∀ a, KeptBy k (f a) (f' a)) : KeptBy k (x >>= f) (y >>= f') := by
  intro b h
  obtain ⟨a, ha, h⟩ := bind_eq_ok.mp h
  exact bind_eq_ok.mpr ⟨a, hx a ha, hf a b h⟩

theorem mapM {f f' : α → Except Error β} (hf : ∀ a, KeptBy id (f a) (f' a)) (as : List α) :
    KeptBy id (as.mapM f) (as.mapM f') := by
  induction as with
  | nil => exact of_ok id []
  | cons a as ih =>
    rw [List.mapM_cons, List.mapM_cons]
    exact (hf a).bind fun b => ih.bind fun bs => of_ok id (b :: bs)

theorem foldlM {f f' : β → α → Except Error β} (hf : ∀ b a, KeptBy id (f b a) (f' b a)) (as : List α) (b : β) :
    KeptBy id (as.foldlM f b) (as.foldlM f' b) := by
  induction as generalizing b with
  | nil => exact of_ok id b
  | cons a as ih =>
    rw [List.foldlM_cons, List.foldlM_cons]
    exact (hf b a).bind ih

end KeptBy

open KeptBy (of_ok)

/-! ### Heads -/

theorem kept_declaredType : (t : Option Tree) → KeptBy id (declaredType path t) (declaredType none t)
  | none => nofun
  | some t => by
    intro w h
    rw [declaredType, mapError_eq_ok] at h ⊢
    exact h

theorem kept_declaredTypes (ts : List Tree) : KeptBy id (declaredTypes path ts) (declaredTypes none ts) :=
  KeptBy.mapM (fun t => kept_declaredType (some t)) ts

namespace Tree

variable (t : Tree)

theorem kept_typeParameter : KeptBy id (typeParameter path t) (typeParameter none t) :=
  (kept_declaredTypes _).bind fun _ => of_ok id _

theorem kept_typeParameters : KeptBy id (t.typeParameters path) (t.typeParameters none) := by
  unfold typeParameters
  cases t.child? "type_parameters" with
  | none => exact of_ok id _
  | some list => exact (KeptBy.mapM kept_typeParameter _).bind fun _ => of_ok id _

theorem kept_addSupertypes (s : Supertypes) : KeptBy id (addSupertypes path s t) (addSupertypes none s t) := by
  unfold addSupertypes
  split
  · exact (kept_declaredType _).bind fun _ => of_ok id _
  · exact (kept_declaredTypes _).bind fun _ => of_ok id _
  · exact (kept_declaredTypes _).bind fun _ => of_ok id _
  · exact of_ok id _

theorem kept_supertypes : KeptBy id (t.supertypes path) (t.supertypes none) :=
  KeptBy.foldlM (fun s c => kept_addSupertypes c s) t.children {}

theorem kept_parameter : KeptBy id (parameter path t) (parameter none t) := by
  unfold parameter
  split
  · exact (kept_declaredType _).bind fun _ => of_ok id _
  · exact (kept_declaredType _).bind fun _ => of_ok id _

theorem kept_parameters : KeptBy id (t.parameters path) (t.parameters none) := by
  unfold parameters
  cases t.child? "parameters" with
  | none => exact of_ok id _
  | some list => exact KeptBy.mapM kept_parameter _

theorem kept_throwsTypes : KeptBy id (t.throwsTypes path) (t.throwsTypes none) := kept_declaredTypes _

theorem kept_components : KeptBy id (t.components path) (t.components none) :=
  t.kept_parameters.bind fun _ => of_ok id _

end Tree

/-! ### Members -/

def Place.unplaced (p : Place) : Place := { p with path := none }

def Owner.unplaced (o : Owner) : Owner := { o with place := o.place.unplaced }

def Members.unplaced (m : Members) : Members := { m with nested := m.nested.map (·.unplaced) }

theorem Members.close_unplaced (m : Members) (d : Declaration) :
    m.unplaced.close d.unplaced = (m.close d).map (·.unplaced) := rfl

theorem Members.append_unplaced (m : Members) (ds : List Declaration) :
    ({ m with nested := m.nested ++ ds } : Members).unplaced =
      { m.unplaced with nested := m.unplaced.nested ++ ds.map (·.unplaced) } := by
  unfold unplaced
  rw [List.map_append]

namespace Tree

variable (t : Tree) (o : Owner) (p : Place)

theorem kept_fields : KeptBy id (t.fields o) (t.fields o.unplaced) :=
  (kept_declaredType _).bind fun _ => of_ok id _

theorem kept_completeMethod (m : MethodDecl) : KeptBy id (completeMethod o m t) (completeMethod o.unplaced m t) :=
  t.kept_typeParameters.bind fun _ => t.kept_parameters.bind fun _ => t.kept_throwsTypes.bind fun _ => of_ok id _

theorem kept_method : KeptBy id (t.method o) (t.method o.unplaced) :=
  (kept_declaredType _).bind fun _ => t.kept_completeMethod o _

theorem kept_constructor (fs : List FieldDecl) : KeptBy id (t.constructor o fs) (t.constructor o.unplaced fs) :=
  t.kept_completeMethod o _

theorem kept_declarationHead (kind : TypeKind) :
    KeptBy Declaration.unplaced (t.declarationHead p kind) (t.declarationHead p.unplaced kind) := by
  unfold declarationHead
  refine t.kept_typeParameters.bind fun parameters => t.kept_supertypes.bind fun supertypes => ?_
  dsimp only
  split
  · exact t.kept_components.bind fun _ => of_ok Declaration.unplaced _
  · exact of_ok Declaration.unplaced _

theorem carried_openType (kind : TypeKind) : CarriedBy (Option.map (Prod.map Declaration.unplaced Owner.unplaced))
    (t.openType p kind) (t.openType p.unplaced kind) := by
  unfold openType
  split
  · exact (CarriedBy.of_modify _ _).bind fun _ => .of_pure none
  · exact (CarriedBy.of_except (t.kept_declarationHead p kind)).bind fun d => .of_pure (some (d, _))

/-- What one member adds to the members before it. -/
theorem carried_add {x y : Except Error α} (h : KeptBy id x y) {f f' : α → Members}
    (hf : ∀ a, (f a).unplaced = f' a) :
    CarriedBy Members.unplaced (liftM x >>= fun a => pure (f a) : Warned Members) (liftM y >>= fun a => pure (f' a)) :=
  (CarriedBy.of_except h).bind fun a => hf a ▸ CarriedBy.of_pure (f a)

mutual

theorem carried_readBody (o : Owner) (m : Members) : (ts : List Tree) →
    CarriedBy Members.unplaced (readBody o m ts) (readBody o.unplaced m.unplaced ts)
  | [] => .of_pure m
  | t :: ts => by
    rw [readBody, readBody]
    split
    · exact carried_readInside o m t
    · exact carried_readBody o m ts

theorem carried_readInside (o : Owner) (m : Members) : (t : Tree) →
    CarriedBy Members.unplaced (readInside o m t) (readInside o.unplaced m.unplaced t)
  | ⟨_, _, _, _, _, children⟩ => carried_readMembers o m children

theorem carried_readMembers (o : Owner) (m : Members) : (ts : List Tree) →
    CarriedBy Members.unplaced (readMembers o m ts) (readMembers o.unplaced m.unplaced ts)
  | [] => .of_pure m
  | t :: ts => by
    rw [readMembers, readMembers]
    exact (carried_readMember o m t).bind fun m => carried_readMembers o m ts

theorem carried_readMember (o : Owner) (m : Members) : (t : Tree) →
    CarriedBy Members.unplaced (readMember o m t) (readMember o.unplaced m.unplaced t)
  | ⟨kind, isNamed, field, text, line, children⟩ => by
    unfold readMember
    dsimp only
    split
    · exact .of_pure m
    · split
      · exact .of_pure { m with fields := m.fields ++ [_] }
      · exact carried_readMembers o m children
      -- fields, methods and constructors
      · exact carried_add (kept_fields _ o) fun _ => rfl
      · exact carried_add (kept_fields _ o) fun _ => rfl
      · exact carried_add (kept_method _ o) fun _ => rfl
      · exact carried_add (kept_method _ o) fun _ => rfl
      · exact carried_add (kept_constructor _ o m.fields) fun _ => rfl
      · exact carried_add (kept_constructor _ o m.fields) fun _ => rfl
      · split
        · exact .of_pure m
        · refine (carried_openType _ _ _).bind fun r => ?_
          cases r with
          | none => exact .of_pure m
          | some r =>
            obtain ⟨d, inner⟩ := r
            refine (carried_readBody inner { fields := d.fields } children).bind fun body => ?_
            have whole := m.append_unplaced (body.close d)
            rw [← Members.close_unplaced] at whole
            exact whole ▸ CarriedBy.of_pure { m with nested := m.nested ++ body.close d }

end

theorem carried_readType (kind : TypeKind) :
    CarriedBy (List.map Declaration.unplaced) (t.readType p kind) (t.readType p.unplaced kind) := by
  unfold readType
  refine (t.carried_openType p kind).bind fun r => ?_
  cases r with
  | none => exact .of_pure []
  | some r =>
    obtain ⟨d, inner⟩ := r
    exact (carried_readBody inner { fields := d.fields } t.children).bind fun body => .of_pure (body.close d)

end Tree

/-! ### Files -/

theorem carried_append {x y x' y' : Warned (List Declaration)} (hx : CarriedBy (List.map Declaration.unplaced) x y)
    (hx' : CarriedBy (List.map Declaration.unplaced) x' y') :
    CarriedBy (List.map Declaration.unplaced) (do return (← x) ++ (← x')) (do return (← y) ++ (← y')) := by
  refine hx.bind fun first => hx'.bind fun rest => ?_
  rw [← List.map_append]
  exact .of_pure (first ++ rest)

theorem carried_readTop (unit : CompilationUnit) (ts : List Tree) : ∀ package : String,
    CarriedBy (List.map Declaration.unplaced) (readTop path unit package ts) (readTop none unit package ts) := by
  induction ts with
  | nil => exact fun _ => .of_pure []
  | cons t ts ih =>
    intro package
    unfold readTop
    split
    · exact ih _
    · split
      · exact (CarriedBy.of_modify _ _).bind fun _ => ih package
      · exact ih package
    · split
      · exact ih package
      · exact carried_append (t.carried_readType _ _) (ih package)

/-- What a file gives under some path it also gives without one. -/
theorem carried_read (f : ParsedFile) (path : Option String) :
    CarriedBy (List.map Declaration.unplaced) (f.read path) (f.read none) := by
  unfold ParsedFile.read
  split
  · exact (CarriedBy.of_modify _ _).bind fun _ => carried_readTop _ _ _
  · exact carried_readTop _ _ _

end TypeAtlas.Syntax
