import Mathlib
import TypeAtlas.Proofs.Syntax.Pruning
import TypeAtlas.Syntax.Reader

/-! A file reads the same without its comments and annotations, wherever they stand: it gives the same
declarations with the same scopes, the same warnings, and fails alike. -/

namespace TypeAtlas.Syntax

variable {t : Tree} {path : Option String}

namespace Tree

theorem Prunable.ofKind {c : Tree} {k : NodeKind} (h : t.Prunable) (hk : k.isIgnored = false)
    (mem : c ∈ Tree.ofKind k t.children) : c.Prunable := by
  obtain ⟨mem, kind⟩ := List.mem_filter.mp mem
  exact h.child mem (by rw [beq_iff_eq.mp kind, hk])

theorem mem_children_of_named {c : Tree} {k : NodeKind} (mem : c ∈ ofKind k t.namedChildren) :
    c ∈ ofKind k t.children := by
  obtain ⟨mem, kind⟩ := List.mem_filter.mp mem
  exact List.mem_filter.mpr ⟨(List.mem_filter.mp mem).1, kind⟩

theorem ofKind_prune {k : NodeKind} (hk : k.isIgnored = false) (t : Tree) :
    ofKind k t.prune.children = (ofKind k t.children).map prune :=
  filter_prune (fun c => by rw [kind_prune]) fun c _ hi => beq_past hk c.kind hi

theorem ofKind_namedChildren_prune {k : NodeKind} (hk : k.isIgnored = false) (t : Tree) :
    ofKind k t.prune.namedChildren = (ofKind k t.namedChildren).map prune :=
  namedChildren_prune (q := (· == k)) (beq_past hk) t

theorem flatMap_parts_prune (ts : List Tree) : (ts.map prune).flatMap parts = (ts.flatMap parts).map prune := by
  rw [List.flatMap_map, List.map_flatMap]
  exact congrArg (ts.flatMap ·) (funext parts_prune)

/-! ### Type parameters, supertypes and parameters -/

theorem parameterName_prune (t : Tree) : t.prune.parameterName = t.parameterName := by
  have same : (fun p : Tree => (p.kind == .typeIdentifier || p.kind == .identifier) && p.text != "") ∘ prune =
      fun p => (p.kind == .typeIdentifier || p.kind == .identifier) && p.text != "" := by
    funext p
    rw [Function.comp_apply, kind_prune, text_prune]
  rw [parameterName, parameterName, parts_prune, List.filter_map, same, List.head?_map, Option.map_map]
  congr 2
  funext p
  exact text_prune p

theorem typeParameter_prune (h : t.Prunable) : typeParameter path t.prune = typeParameter path t := by
  rw [typeParameter, typeParameter, parameterName_prune, ofKind_parts_prune, flatMap_parts_prune,
    declaredTypes_prune fun c hc => ?_]
  obtain ⟨bound, hb, hc⟩ := List.mem_flatMap.mp hc
  exact (h.part (List.mem_filter.mp hb).1).part hc

theorem typeParameters_prune (h : t.Prunable) : t.prune.typeParameters path = t.typeParameters path := by
  rw [typeParameters, typeParameters, child?_prune h]
  cases hl : t.child? "type_parameters" with
  | none => rfl
  | some list =>
    simp only [Option.map_some]
    rw [ofKind_namedChildren_prune rfl, mapM_prune fun p hp => typeParameter_prune ?_]
    exact (h.ofField hl).ofKind rfl (mem_children_of_named hp)

theorem listedTypes_prune (t : Tree) : t.prune.listedTypes = t.listedTypes.map prune := by
  rw [listedTypes, listedTypes, parts_prune, List.flatMap_map, List.map_flatMap]
  refine congrArg (t.parts.flatMap ·) (funext fun p => ?_)
  rw [kind_prune, parts_prune]
  split <;> rfl

theorem mem_of_listedTypes {c : Tree} (h : t.Prunable) (mem : c ∈ t.listedTypes) : c.Prunable := by
  obtain ⟨p, hp, mem⟩ := List.mem_flatMap.mp mem
  split at mem
  · exact (h.part hp).part mem
  · exact List.mem_singleton.mp mem ▸ h.part hp

theorem addSupertypes_prune {s : Supertypes} (h : t.Prunable) :
    addSupertypes path s t.prune = addSupertypes path s t := by
  rw [addSupertypes, addSupertypes, kind_prune, parts_prune, List.getLast?_map, listedTypes_prune,
    declaredType_prune fun c hc => h.part (List.mem_of_getLast? hc),
    declaredTypes_prune fun c hc => mem_of_listedTypes h hc]

theorem addSupertypes_ignored {s : Supertypes} (hi : t.kind.isIgnored) : addSupertypes path s t = .ok s := by
  unfold addSupertypes
  split <;> first | rfl | (rename_i kind; rw [kind] at hi; cases hi)

theorem foldlM_addSupertypes_prune {ts : List Tree} (h : PrunableAll ts) (s : Supertypes) :
    (pruneAll ts).foldlM (addSupertypes path) s = ts.foldlM (addSupertypes path) s := by
  induction ts generalizing s with
  | nil => rfl
  | cons t ts ih =>
    rw [pruneAll, List.foldlM_cons]
    rw [PrunableAll] at h
    split
    · rename_i hi
      rw [ih h.2, addSupertypes_ignored hi]
      rfl
    · rename_i hi
      rw [if_neg hi] at h
      rw [List.foldlM_cons, addSupertypes_prune h.1]
      exact congrArg _ (funext fun s => ih h.2 s)

theorem supertypes_prune (h : t.Prunable) : t.prune.supertypes path = t.supertypes path := by
  cases t
  exact foldlM_addSupertypes_prune h {}

theorem declaratorName_prune {ts : List Tree} (h : ∀ c ∈ ts, c.Prunable) :
    declaratorName (ts.map prune) = declaratorName ts := by
  have same : (fun c : Tree => c.kind == .variableDeclarator) ∘ prune = fun c => c.kind == .variableDeclarator := by
    funext c
    rw [Function.comp_apply, kind_prune]
  rw [declaratorName, declaratorName, ofKind, ofKind, List.filter_map, same, List.getLast?_map]
  cases hl : (ts.filter fun c => c.kind == .variableDeclarator).getLast? with
  | none => rfl
  | some d => exact nameText_prune (h d (List.mem_filter.mp (List.mem_of_getLast? hl)).1)

theorem spreadParameter_prune (h : t.Prunable) : spreadParameter path t.prune = spreadParameter path t := by
  have same : (fun p : Tree => p.kind != .variableDeclarator && p.kind != .modifiers) ∘ prune =
      fun p => p.kind != .variableDeclarator && p.kind != .modifiers := by
    funext p
    rw [Function.comp_apply, kind_prune]
  rw [spreadParameter, spreadParameter, parts_prune, declaratorName_prune fun c hc => h.part hc, List.find?_map, same,
    declaredType_prune fun c hc => h.part (List.mem_of_find?_eq_some hc)]

theorem formalParameter_prune (h : t.Prunable) : formalParameter path t.prune = formalParameter path t := by
  rw [formalParameter, formalParameter, nameText_prune h, dimensions_prune h, child?_prune h,
    declaredType_prune fun c hc => h.ofField hc]

theorem parameter_prune (h : t.Prunable) : parameter path t.prune = parameter path t := by
  rw [parameter, parameter, kind_prune, spreadParameter_prune h, formalParameter_prune h]

theorem parameters_prune (h : t.Prunable) : t.prune.parameters path = t.parameters path := by
  rw [parameters, parameters, child?_prune h]
  cases hl : t.child? "parameters" with
  | none => rfl
  | some list =>
    have isParameter (k : NodeKind) (hk : k.isIgnored) : (k == .formalParameter || k == .spreadParameter) = false := by
      rw [beq_past rfl k hk, beq_past rfl k hk]
      rfl
    simp only [Option.map_some]
    rw [namedChildren_prune (q := fun k => k == .formalParameter || k == .spreadParameter) isParameter,
      mapM_prune fun p hp => parameter_prune ?_]
    obtain ⟨mem, kind⟩ := List.mem_filter.mp hp
    refine (h.ofField hl).child (List.mem_filter.mp mem).1 (Bool.eq_false_iff.mpr fun hi => ?_)
    rw [isParameter p.kind hi] at kind
    cases kind

theorem throwsTypes_prune (h : t.Prunable) : t.prune.throwsTypes path = t.throwsTypes path := by
  rw [throwsTypes, throwsTypes, ofKind_prune rfl, flatMap_parts_prune, declaredTypes_prune fun c hc => ?_]
  obtain ⟨clause, hl, hc⟩ := List.mem_flatMap.mp hc
  exact (h.ofKind rfl hl).part hc

/-! ### Members -/

variable {o : Owner}

theorem constant_prune (h : t.Prunable) : constant o t.prune = constant o t := by
  rw [constant, constant, nameText_prune h]

theorem fields_prune (h : t.Prunable) : fields o t.prune = fields o t := by
  have declared (signature : String) (modifiers : List String) :
      ((ofKind .variableDeclarator t.namedChildren).map prune).map
          (fun d => (⟨d.nameText, dimensionMarks d.dimensions ++ signature, modifiers, false⟩ : FieldDecl)) =
        (ofKind .variableDeclarator t.namedChildren).map
          fun d => ⟨d.nameText, dimensionMarks d.dimensions ++ signature, modifiers, false⟩ := by
    rw [List.map_map]
    refine List.map_congr_left fun d hd => ?_
    have hd := h.ofKind rfl (mem_children_of_named hd)
    rw [Function.comp_apply, nameText_prune hd, dimensions_prune hd]
  rw [fields, fields, modifiers_prune h, child?_prune h, declaredType_prune fun c hc => h.ofField hc,
    ofKind_namedChildren_prune rfl]
  simp only [declared]

theorem methodModifiers_prune (h : t.Prunable) (isInterface : Bool) :
    methodModifiers isInterface t.prune = methodModifiers isInterface t := by
  rw [methodModifiers, methodModifiers, modifiers_prune h, child?_prune h, Option.isNone_map]

theorem completeMethod_prune (h : t.Prunable) (m : MethodDecl) :
    completeMethod o m t.prune = completeMethod o m t := by
  rw [completeMethod, completeMethod, typeParameters_prune h, parameters_prune h, throwsTypes_prune h]

theorem method_prune (h : t.Prunable) : method o t.prune = method o t := by
  rw [method, method, child?_prune h, declaredType_prune fun c hc => h.ofField hc, nameText_prune h, dimensions_prune h,
    methodModifiers_prune h]
  simp only [completeMethod_prune h]

theorem constructor_prune (h : t.Prunable) (fs : List FieldDecl) : constructor o fs t.prune = constructor o fs t := by
  rw [constructor, constructor, modifiers_prune h, kind_prune, completeMethod_prune h]

theorem components_prune (h : t.Prunable) : t.prune.components path = t.components path := by
  rw [components, components, parameters_prune h]

theorem declarationHead_prune (h : t.Prunable) (p : Place) (kind : TypeKind) :
    t.prune.declarationHead p kind = t.declarationHead p kind := by
  rw [declarationHead, declarationHead, typeParameters_prune h, supertypes_prune h, nameText_prune h, modifiers_prune h,
    kind_prune, components_prune h]

theorem openType_prune (h : t.Prunable) (p : Place) (kind : TypeKind) :
    t.prune.openType p kind = t.openType p kind := by
  rw [openType, openType, nameText_prune h, line_prune, declarationHead_prune h]

/-! ### Bodies -/

variable {m : Members}

/-- A member by its kind. -/
theorem readMember_eq (o : Owner) (m : Members) (t : Tree) :
    readMember o m t = do
      if !t.isNamed then return m
      match t.kind with
      | .enumConstant => return { m with fields := m.fields ++ [t.constant o] }
      | .enumBodyDeclarations => readMembers o m t.children
      | .fieldDeclaration | .constantDeclaration =>
        let fields ← t.fields o
        return { m with fields := m.fields ++ fields }
      | .methodDeclaration | .annotationTypeElementDeclaration =>
        let method ← t.method o
        return { m with methods := m.methods ++ [method] }
      | .constructorDeclaration | .compactConstructorDeclaration =>
        let method ← t.constructor o m.fields
        return { m with methods := m.methods ++ [method] }
      | kind =>
        match kind.typeKind? with
        | none => return m
        | some typeKind =>
          let place := o.place.member o.name o.scope (t.modifiers.contains "static")
          match ← t.openType place typeKind with
          | none => return m
          | some (d, inner) =>
            let body ← readBody inner { fields := d.fields } t.children
            return { m with nested := m.nested ++ body.close d } := by
  cases t
  rfl

theorem readMember_ignored (hi : t.kind.isIgnored) : readMember o m t = pure m := by
  rw [readMember_eq]
  split
  · rfl
  · split <;> try (rename_i kind; rw [kind] at hi; cases hi)
    have type : t.kind.typeKind? = none := by
      revert hi
      cases t.kind <;> simp [NodeKind.isIgnored, NodeKind.typeKind?]
    rw [type]

mutual

theorem readBody_prune (o : Owner) (m : Members) : (ts : List Tree) → PrunableAll ts →
    readBody o m (pruneAll ts) = readBody o m ts
  | [], _ => rfl
  | t :: ts, h => by
    rw [pruneAll, readBody]
    rw [PrunableAll] at h
    split
    · rename_i hi
      rw [if_pos hi] at h
      rw [if_neg (by simp [h.1.1]), readBody_prune o m ts h.2]
    · rename_i hi
      rw [if_neg hi] at h
      rw [readBody, field_prune, readInside_prune o m t h.1, readBody_prune o m ts h.2]

theorem readInside_prune (o : Owner) (m : Members) : (t : Tree) → t.Prunable →
    readInside o m t.prune = readInside o m t
  | ⟨_, _, _, _, _, children⟩, h => readMembers_prune o m children h

theorem readMembers_prune (o : Owner) (m : Members) : (ts : List Tree) → PrunableAll ts →
    readMembers o m (pruneAll ts) = readMembers o m ts
  | [], _ => rfl
  | t :: ts, h => by
    rw [pruneAll, readMembers]
    rw [PrunableAll] at h
    split
    · rename_i hi
      rw [readMember_ignored hi, pure_bind, readMembers_prune o m ts h.2]
    · rename_i hi
      rw [if_neg hi] at h
      rw [readMembers, readMember_prune o m t h.1]
      exact congrArg _ (funext fun m => readMembers_prune o m ts h.2)

theorem readMember_prune (o : Owner) (m : Members) : (t : Tree) → t.Prunable →
    readMember o m t.prune = readMember o m t
  | ⟨kind, isNamed, field, text, line, children⟩, h => by
    have inside : (prune ⟨kind, isNamed, field, text, line, children⟩).children = pruneAll children := rfl
    rw [readMember_eq, readMember_eq o m ⟨kind, isNamed, field, text, line, children⟩, isNamed_prune, kind_prune,
      constant_prune h, fields_prune h, method_prune h, constructor_prune h, modifiers_prune h, inside,
      readMembers_prune o m children h]
    simp only [openType_prune h, readBody_prune _ _ children h]

end

theorem readType_prune (h : t.Prunable) (p : Place) (kind : TypeKind) : t.prune.readType p kind = t.readType p kind := by
  rw [readType, readType, openType_prune h]
  refine congrArg _ (funext fun opened => ?_)
  cases opened with
  | none => rfl
  | some opened =>
    cases t
    exact congrArg (· >>= _) (readBody_prune opened.2 _ _ h)

end Tree

/-! ### Files -/

variable {unit : CompilationUnit} {package : String}

theorem readTop_ignored {ts : List Tree} (hi : t.kind.isIgnored) :
    readTop path unit package (t :: ts) = readTop path unit package ts := by
  rw [readTop]
  split <;> try (rename_i kind; rw [kind] at hi; cases hi)
  have type : t.kind.typeKind? = none := by
    revert hi
    cases t.kind <;> simp [NodeKind.isIgnored, NodeKind.typeKind?]
  rw [type]

theorem readTop_cons_prune {ts us : List Tree} (h : t.Prunable)
    (rest : ∀ package, readTop path unit package ts = readTop path unit package us) :
    readTop path unit package (t.prune :: ts) = readTop path unit package (t :: us) := by
  rw [readTop, readTop, Tree.kind_prune, Tree.packageName_prune h, Tree.names_prune, Tree.text_prune, rest, rest,
    List.isEmpty_map]
  simp only [Tree.readType_prune h]

theorem readTop_prune (ts : List Tree) (h : Tree.PrunableAll ts) (package : String) :
    readTop path unit package ((Tree.pruneAll ts).filter (·.isNamed)) =
      readTop path unit package (ts.filter (·.isNamed)) := by
  induction ts generalizing package with
  | nil => rfl
  | cons t ts ih =>
    rw [Tree.PrunableAll] at h
    rw [Tree.pruneAll]
    split
    · rename_i hi
      rw [ih h.2, List.filter_cons]
      split
      · rw [readTop_ignored hi]
      · rfl
    · rename_i hi
      rw [if_neg hi] at h
      rw [List.filter_cons, List.filter_cons, Tree.isNamed_prune]
      split
      · exact readTop_cons_prune h.1 (ih h.2)
      · exact ih h.2 package

theorem foldl_addHeader_prune (ts : List Tree) (h : Tree.PrunableAll ts) (u : CompilationUnit) :
    ((Tree.pruneAll ts).filter (·.isNamed)).foldl addHeader u = (ts.filter (·.isNamed)).foldl addHeader u := by
  induction ts generalizing u with
  | nil => rfl
  | cons t ts ih =>
    rw [Tree.PrunableAll] at h
    rw [Tree.pruneAll]
    split
    · rename_i hi
      rw [ih h.2, List.filter_cons]
      split
      · rw [List.foldl_cons, addHeader_ignored hi]
      · rfl
    · rename_i hi
      rw [if_neg hi] at h
      rw [List.filter_cons, List.filter_cons, Tree.isNamed_prune]
      split
      · rw [List.foldl_cons, List.foldl_cons, addHeader_prune h.1, ih h.2]
      · exact ih h.2 u

theorem unitOf_prune (h : t.Prunable) : unitOf t.prune = unitOf t := by
  cases t
  exact foldl_addHeader_prune _ h {}

theorem readTop_namedChildren_prune (h : t.Prunable) :
    readTop path unit package t.prune.namedChildren = readTop path unit package t.namedChildren := by
  cases t
  exact readTop_prune _ h package

/-- The file without its comments and annotations. Whether there were errors is an attribute of the root, not of what
hangs below it, and so stays as it is. -/
def ParsedFile.prune (f : ParsedFile) : ParsedFile := { f with root := f.root.prune }

/-- Comments and annotations never matter: without them a file gives the same declarations and warnings, or
the same failure. -/
theorem read_prune (f : ParsedFile) (path : Option String) (h : f.root.Prunable) : f.prune.read path = f.read path := by
  unfold ParsedFile.read ParsedFile.prune
  dsimp only
  rw [unitOf_prune h, readTop_namedChildren_prune h]

def remark (kind : NodeKind) (text : String) : Tree := ⟨kind, true, none, text, 1, []⟩

/-- `class A /* keyed */ { @Id final List</* of */ String> keys; }` -/
def remarkedFile : ParsedFile where
  root := ⟨.other "program", true, none, "", 1, [
    ⟨.classDeclaration, true, none, "", 1, [
      ⟨.identifier, true, some "name", "A", 1, []⟩,
      remark .blockComment "/* keyed */",
      ⟨.other "class_body", true, some "body", "", 1, [
        ⟨.fieldDeclaration, true, none, "", 1, [
          ⟨.modifiers, true, none, "", 1, [
            remark .markerAnnotationUse "@Id",
            ⟨.other "final", false, none, "final", 1, []⟩]⟩,
          ⟨.genericType, true, some "type", "", 1, [
            ⟨.typeIdentifier, true, none, "List", 1, []⟩,
            ⟨.typeArguments, true, none, "", 1, [
              remark .blockComment "/* of */",
              ⟨.typeIdentifier, true, none, "String", 1, []⟩]⟩]⟩,
          ⟨.variableDeclarator, true, some "declarator", "", 1, [
            ⟨.identifier, true, some "name", "keys", 1, []⟩]⟩]⟩]⟩]⟩]⟩

def keyedDeclaration : Declaration where
  name := "A"
  fields := [⟨"keys", "QList<QString;>;", ["final"], false⟩]
  scope := some (.lexical { enclosing := ["A"] })

theorem read_prune_remarkedField :
    remarkedFile.root.Prunable ∧ (remarkedFile.prune.read none).outcome = (.ok [keyedDeclaration], []) ∧
      (remarkedFile.read none).outcome = (.ok [keyedDeclaration], []) := by
  have prunable : remarkedFile.root.Prunable := by
    simp [remarkedFile, remark, Tree.Prunable, Tree.PrunableAll, NodeKind.isIgnored, modifierKeywords]
  have pruned : (remarkedFile.prune.read none).outcome = (.ok [keyedDeclaration], []) := by cbv
  exact ⟨prunable, pruned, read_prune remarkedFile none prunable ▸ pruned⟩

end TypeAtlas.Syntax
