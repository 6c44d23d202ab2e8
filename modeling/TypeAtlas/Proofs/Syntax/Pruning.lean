import TypeAtlas.Proofs.Syntax.Encoding
import TypeAtlas.Syntax.Header

/-! Trees without their comments and annotations. Whatever is looked up in a node (a field, its parts,
its children of some kind) is the same there, and so are the signatures of types and all that a
declaration says outside its body. -/

namespace TypeAtlas.Syntax

variable {t : Tree} {path : Option String}

namespace Tree

mutual

/-- The node without the comments and annotations below it. -/
def prune : Tree → Tree
  | ⟨kind, isNamed, field, text, line, children⟩ => ⟨kind, isNamed, field, text, line, pruneAll children⟩
termination_by structural t => t

def pruneAll : List Tree → List Tree
  | [] => []
  | t :: ts => if t.kind.isIgnored then pruneAll ts else t.prune :: pruneAll ts
termination_by structural ts => ts

end

mutual

/-- Comments and annotations below the node are known by no field, and none is spelled like a modifier. -/
def Prunable : Tree → Prop
  | ⟨_, _, _, _, _, children⟩ => PrunableAll children
termination_by structural t => t

def PrunableAll : List Tree → Prop
  | [] => True
  | t :: ts =>
    (if t.kind.isIgnored then t.field = none ∧ t.text ∉ modifierKeywords else t.Prunable) ∧ PrunableAll ts
termination_by structural ts => ts

end

@[simp] theorem kind_prune (t : Tree) : t.prune.kind = t.kind := by cases t; rfl

@[simp] theorem isNamed_prune (t : Tree) : t.prune.isNamed = t.isNamed := by cases t; rfl

@[simp] theorem field_prune (t : Tree) : t.prune.field = t.field := by cases t; rfl

@[simp] theorem text_prune (t : Tree) : t.prune.text = t.text := by cases t; rfl

@[simp] theorem line_prune (t : Tree) : t.prune.line = t.line := by cases t; rfl

theorem pruneAll_eq (ts : List Tree) : pruneAll ts = (ts.filter (!·.kind.isIgnored)).map prune := by
  induction ts with
  | nil => rfl
  | cons t ts ih =>
    rw [pruneAll, ih]
    cases h : t.kind.isIgnored <;> simp [h]

theorem children_prune (t : Tree) : t.prune.children = (t.children.filter (!·.kind.isIgnored)).map prune := by
  cases t
  exact pruneAll_eq _

theorem prunableAll_iff {ts : List Tree} : PrunableAll ts ↔
    ∀ t ∈ ts, if t.kind.isIgnored then t.field = none ∧ t.text ∉ modifierKeywords else t.Prunable := by
  induction ts with
  | nil => simp [PrunableAll]
  | cons t ts ih => rw [PrunableAll, List.forall_mem_cons, ih]

theorem prunable_iff : t.Prunable ↔
    ∀ c ∈ t.children, if c.kind.isIgnored then c.field = none ∧ c.text ∉ modifierKeywords else c.Prunable := by
  cases t
  exact prunableAll_iff

namespace Prunable

variable {c : Tree}

theorem ignored (h : t.Prunable) (mem : c ∈ t.children) (hc : c.kind.isIgnored) :
    c.field = none ∧ c.text ∉ modifierKeywords := by
  have := prunable_iff.mp h c mem
  rwa [if_pos hc] at this

theorem child (h : t.Prunable) (mem : c ∈ t.children) (hc : c.kind.isIgnored = false) : c.Prunable := by
  have := prunable_iff.mp h c mem
  rwa [if_neg (by simp [hc])] at this

theorem part (h : t.Prunable) (mem : c ∈ t.parts) : c.Prunable := by
  obtain ⟨mem, hc⟩ := List.mem_filter.mp mem
  refine h.child mem ?_
  simp only [isPart, Bool.and_eq_true, Bool.not_eq_true'] at hc
  exact hc.2

theorem ofField {field : String} (h : t.Prunable) (hf : t.child? field = some c) : c.Prunable := by
  have mem := List.mem_of_find?_eq_some hf
  refine h.child mem (Bool.eq_false_iff.mpr fun hc => ?_)
  have := List.find?_some hf
  simp [(h.ignored mem hc).1] at this

end Prunable

/-! ### Looking up children -/

/-- A choice of children that goes by what pruning keeps and passes over what it deletes. -/
theorem filter_prune {p : Tree → Bool} (same : ∀ c : Tree, p c.prune = p c)
    (past : ∀ c ∈ t.children, c.kind.isIgnored → p c = false) :
    t.prune.children.filter p = (t.children.filter p).map prune := by
  rw [children_prune, List.filter_map, List.filter_filter]
  congr 1
  refine List.filter_congr fun c hc => ?_
  rw [Function.comp_apply, same]
  cases hi : c.kind.isIgnored with
  | true => simp [past c hc hi]
  | false => simp

theorem beq_past {k : NodeKind} (hk : k.isIgnored = false) (l : NodeKind) (hl : l.isIgnored) : (l == k) = false := by
  refine beq_eq_false_iff_ne.mpr fun h => ?_
  rw [h, hk] at hl
  cases hl

theorem find?_prune {p : Tree → Bool} (same : ∀ c : Tree, p c.prune = p c)
    (past : ∀ c ∈ t.children, c.kind.isIgnored → p c = false) :
    t.prune.children.find? p = (t.children.find? p).map prune := by
  rw [← List.head?_filter, filter_prune same past, List.head?_map, List.head?_filter]

theorem child?_prune (h : t.Prunable) (field : String) : t.prune.child? field = (t.child? field).map prune :=
  find?_prune (fun c => by rw [field_prune]) fun c hc hi => by simp [(h.ignored hc hi).1]

theorem parts_prune (t : Tree) : t.prune.parts = t.parts.map prune :=
  filter_prune (fun c => by rw [isPart, isPart, isNamed_prune, kind_prune]) fun c _ hi => by simp [isPart, hi]

theorem namedChildren_prune {q : NodeKind → Bool} (hq : ∀ k : NodeKind, k.isIgnored → q k = false) (t : Tree) :
    t.prune.namedChildren.filter (q ·.kind) = (t.namedChildren.filter (q ·.kind)).map prune := by
  rw [namedChildren, namedChildren, List.filter_filter, List.filter_filter]
  exact filter_prune (fun c => by rw [kind_prune, isNamed_prune]) fun c _ hi => by simp [hq _ hi]

theorem countP_prune {k : NodeKind} (hk : k.isIgnored = false) (t : Tree) :
    t.prune.children.countP (·.kind == k) = t.children.countP (·.kind == k) := by
  rw [List.countP_eq_length_filter, filter_prune (fun c => by rw [kind_prune]) fun c _ hi => beq_past hk c.kind hi,
    List.length_map, List.countP_eq_length_filter]

theorem hasChild_prune {k : NodeKind} (hk : k.isIgnored = false) (t : Tree) :
    t.prune.hasChild k = t.hasChild k := by
  rw [Bool.eq_iff_iff, hasChild, hasChild, List.any_eq_true, List.any_eq_true, ← List.countP_pos_iff,
    ← List.countP_pos_iff, countP_prune hk]

theorem ofKind_parts_prune {k : NodeKind} (t : Tree) :
    ofKind k t.prune.parts = (ofKind k t.parts).map prune := by
  rw [parts_prune, ofKind, ofKind, List.filter_map]
  congr 2
  funext c
  exact congrArg (· == k) (kind_prune c)

/-! ### Types -/

theorem bracketCount_prune (t : Tree) : t.prune.bracketCount = t.bracketCount := countP_prune rfl t

theorem dimensions_prune (h : t.Prunable) : t.prune.dimensions = t.dimensions := by
  rw [dimensions, dimensions, child?_prune h]
  cases t.child? "dimensions" with
  | none => rfl
  | some d => exact bracketCount_prune d

theorem unexpected_prune (t : Tree) : t.prune.unexpected = t.unexpected := by
  rw [unexpected, unexpected, kind_prune, text_prune]

theorem bounds_prune (t : Tree) : t.prune.bounds = t.bounds.map prune := by
  rw [bounds, bounds, parts_prune, List.filter_map]
  congr 2
  funext c
  exact congrArg (· != .superKeyword) (kind_prune c)

/-- The encoder without the evidence that it descends. -/
theorem encodeType_eq (t : Tree) (depth : Nat) :
    t.encodeType depth =
      if Signature.maxNesting < depth then .error (.tooDeep t.text)
      else match t.kind with
        | .integralType | .floatingPointType | .booleanType | .voidType =>
          match primitiveSignature? t.text with
          | some signature => .ok signature
          | none => .error t.unexpected
        | .typeIdentifier | .scopedTypeIdentifier | .genericType =>
          t.encodePath depth >>= fun path => .ok ("Q" ++ path ++ ";")
        | .arrayType =>
          match t.child? "element" with
          | some element => element.encodeType depth >>= fun s => .ok (dimensionMarks t.dimensions ++ s)
          | none => .error t.unexpected
        | .annotatedType =>
          match t.parts.getLast? with
          | some type => type.encodeType depth
          | none => .error t.unexpected
        | _ => .error t.unexpected := by
  rw [encodeType]
  split
  · rfl
  · split <;> first | rfl | (split <;> simp_all)

theorem encodePath_eq (t : Tree) (depth : Nat) :
    t.encodePath depth =
      if t.kind = .typeIdentifier then .ok t.text
      else match t.parts with
        | [first, second] =>
          if t.kind = .genericType then
            first.encodePath depth >>= fun path =>
              second.encodeArguments depth >>= fun arguments => .ok (path ++ arguments)
          else if t.kind = .scopedTypeIdentifier then
            first.encodePath depth >>= fun path => .ok (path ++ "." ++ second.text)
          else .error t.unexpected
        | _ => .error t.unexpected := by
  rw [encodePath]
  split
  · rfl
  · split <;> simp_all

theorem encodeArguments_eq (t : Tree) (depth : Nat) :
    t.encodeArguments depth = t.parts.mapM (·.encodeArgument (depth + 1)) >>= fun arguments =>
      if t.kind != .typeArguments || arguments.isEmpty then .error (.invalidArguments t.text)
      else .ok ("<" ++ String.join arguments ++ ">") := by
  rw [encodeArguments]
  simp only [mapM_attach_encodeArgument]

theorem encodeArgument_eq (t : Tree) (depth : Nat) :
    t.encodeArgument depth =
      if t.kind = .wildcard then
        match t.bounds.getLast? with
        | none => .ok "*"
        | some bound =>
          bound.encodeType depth >>= fun s => .ok ((if t.hasChild .superKeyword then "-" else "+") ++ s)
      else t.encodeType depth := by
  rw [encodeArgument]
  split
  · split <;> simp_all
  · rfl

theorem mapM_prune {ε α : Type} {f : Tree → Except ε α} {ts : List Tree} (h : ∀ t ∈ ts, f t.prune = f t) :
    (ts.map prune).mapM f = ts.mapM f := by
  induction ts with
  | nil => rfl
  | cons t ts ih =>
    rw [List.map_cons, List.mapM_cons, List.mapM_cons, h t List.mem_cons_self,
      ih fun c hc => h c (List.mem_cons_of_mem t hc)]

mutual

theorem encodeType_prune (t : Tree) (h : t.Prunable) (depth : Nat) : t.prune.encodeType depth = t.encodeType depth := by
  rw [encodeType_eq, encodeType_eq t, kind_prune, text_prune, unexpected_prune, child?_prune h, dimensions_prune h,
    parts_prune, List.getLast?_map, encodePath_prune t h depth]
  split
  · rfl
  · split <;> try rfl
    · cases he : t.child? "element" with
      | none => rfl
      | some element =>
        have := sizeOf_lt_of_child? he
        simp only [Option.map_some, element.encodeType_prune (h.ofField he) depth]
    · cases hl : t.parts.getLast? with
      | none => rfl
      | some type =>
        have mem := List.mem_of_getLast? hl
        have := sizeOf_lt_of_mem_parts mem
        simp only [Option.map_some, type.encodeType_prune (h.part mem) depth]
termination_by (sizeOf t, 1)

theorem encodePath_prune (t : Tree) (h : t.Prunable) (depth : Nat) : t.prune.encodePath depth = t.encodePath depth := by
  rw [encodePath_eq, encodePath_eq t, kind_prune, text_prune, unexpected_prune, parts_prune]
  split
  · rfl
  · match hp : t.parts with
    | [] => rfl
    | [_] => rfl
    | [first, second] =>
      have mem₁ : first ∈ t.parts := by simp [hp]
      have mem₂ : second ∈ t.parts := by simp [hp]
      have := sizeOf_lt_of_mem_parts mem₁
      have := sizeOf_lt_of_mem_parts mem₂
      simp only [List.map_cons, List.map_nil, text_prune, first.encodePath_prune (h.part mem₁) depth,
        second.encodeArguments_prune (h.part mem₂) depth]
    | _ :: _ :: _ :: _ => rfl
termination_by (sizeOf t, 0)

theorem encodeArguments_prune (t : Tree) (h : t.Prunable) (depth : Nat) :
    t.prune.encodeArguments depth = t.encodeArguments depth := by
  rw [encodeArguments_eq, encodeArguments_eq t, kind_prune, text_prune, parts_prune]
  congr 1
  refine mapM_prune fun a mem => ?_
  have := sizeOf_lt_of_mem_parts mem
  exact a.encodeArgument_prune (h.part mem) (depth + 1)
termination_by (sizeOf t, 0)

theorem encodeArgument_prune (t : Tree) (h : t.Prunable) (depth : Nat) :
    t.prune.encodeArgument depth = t.encodeArgument depth := by
  rw [encodeArgument_eq, encodeArgument_eq t, kind_prune, bounds_prune, List.getLast?_map, hasChild_prune rfl,
    encodeType_prune t h depth]
  split
  · cases hl : t.bounds.getLast? with
    | none => rfl
    | some bound =>
      have mem := mem_parts_of_mem_bounds (List.mem_of_getLast? hl)
      have := sizeOf_lt_of_mem_parts mem
      simp only [Option.map_some, bound.encodeType_prune (h.part mem) depth]
  · rfl
termination_by (sizeOf t, 2)

end

theorem signature_prune (h : t.Prunable) : t.prune.signature = t.signature := encodeType_prune t h 0

end Tree

theorem declaredType_prune {type : Option Tree} (h : ∀ t ∈ type, t.Prunable) :
    declaredType path (type.map Tree.prune) = declaredType path type := by
  cases type with
  | none => rfl
  | some t => rw [Option.map_some, declaredType, declaredType, Tree.signature_prune (h t rfl), Tree.line_prune]

theorem declaredTypes_prune {ts : List Tree} (h : ∀ t ∈ ts, t.Prunable) :
    declaredTypes path (ts.map Tree.prune) = declaredTypes path ts :=
  Tree.mapM_prune fun t ht => @declaredType_prune path (some t) fun _ hs => Option.mem_some.mp hs ▸ h t ht

namespace Tree

/-! ### Headers -/

theorem fieldText_prune (h : t.Prunable) (field : String) : t.prune.fieldText field = t.fieldText field := by
  rw [fieldText, fieldText, child?_prune h]
  cases t.child? field with
  | none => rfl
  | some c => exact text_prune c

theorem nameText_prune (h : t.Prunable) : t.prune.nameText = t.nameText := fieldText_prune h "name"

theorem qualifiedName_eq (t : Tree) :
    t.qualifiedName =
      if t.kind = .scopedIdentifier then
        match t.child? "scope" with
        | none => t.nameText
        | some scope => scope.qualifiedName ++ "." ++ t.nameText
      else t.text := by
  rw [qualifiedName]
  split
  · split <;> simp_all
  · rfl

theorem qualifiedName_prune (t : Tree) (h : t.Prunable) : t.prune.qualifiedName = t.qualifiedName := by
  rw [qualifiedName_eq, qualifiedName_eq t, kind_prune, text_prune, nameText_prune h, child?_prune h]
  split
  · cases hs : t.child? "scope" with
    | none => rfl
    | some scope =>
      have := sizeOf_lt_of_child? hs
      simp only [Option.map_some, scope.qualifiedName_prune (h.ofField hs)]
  · rfl
termination_by t

theorem names_prune (t : Tree) : t.prune.names = t.names.map prune :=
  namedChildren_prune (q := fun k => k == .scopedIdentifier || k == .identifier)
    (fun k hk => by cases k <;> first | rfl | cases hk) t

theorem mem_of_names {c : Tree} (h : t.Prunable) (mem : c ∈ t.names) : c.Prunable := by
  obtain ⟨mem, kind⟩ := List.mem_filter.mp mem
  refine h.child (List.mem_filter.mp mem).1 (Bool.eq_false_iff.mpr fun hi => ?_)
  revert kind hi
  cases c.kind <;> simp [NodeKind.isIgnored]

theorem packageName_prune (h : t.Prunable) : t.prune.packageName = t.packageName := by
  rw [packageName, packageName, names_prune]
  cases hn : t.names with
  | nil => rfl
  | cons name rest => exact name.qualifiedName_prune (mem_of_names h (by simp [hn]))

theorem isOnDemand_prune (t : Tree) : t.prune.isOnDemand = t.isOnDemand := hasChild_prune rfl t

theorem isStaticSingle_prune (t : Tree) : t.prune.isStaticSingle = t.isStaticSingle := by
  rw [isStaticSingle, isStaticSingle, isOnDemand_prune, hasChild_prune rfl]

/-- The keywords among the texts below a node. -/
theorem keywords_prune (h : t.Prunable) :
    (t.prune.children.map (·.text)).filter (modifierKeywords.contains ·) =
      (t.children.map (·.text)).filter (modifierKeywords.contains ·) := by
  have keep := filter_prune (t := t) (p := fun c => modifierKeywords.contains c.text) (fun c => by rw [text_prune])
    fun c hc hi => by simpa using (h.ignored hc hi).2
  rw [List.filter_map, List.filter_map]
  refine (congrArg (List.map (·.text)) keep).trans ?_
  rw [List.map_map]
  exact List.map_congr_left fun c _ => text_prune c

theorem modifiers_prune (h : t.Prunable) : t.prune.modifiers = t.modifiers := by
  rw [modifiers, modifiers, find?_prune (fun c => by rw [kind_prune]) fun c _ hi => beq_past rfl c.kind hi]
  cases hm : t.children.find? (·.kind == .modifiers) with
  | none => rfl
  | some m =>
    have kind := List.find?_some hm
    refine keywords_prune (h.child (List.mem_of_find?_eq_some hm) ?_)
    rw [beq_iff_eq.mp kind]
    rfl

end Tree

theorem addHeader_prune {u : CompilationUnit} (h : t.Prunable) : addHeader u t.prune = addHeader u t := by
  unfold addHeader
  rw [Tree.kind_prune, Tree.packageName_prune h, Tree.names_prune, Tree.isOnDemand_prune, Tree.isStaticSingle_prune]
  split
  · rfl
  · cases hn : t.names with
    | nil => rfl
    | cons name rest =>
      simp only [List.map_cons, name.qualifiedName_prune (Tree.mem_of_names h (by simp [hn]))]
  · rfl

theorem addHeader_ignored {u : CompilationUnit} (hi : t.kind.isIgnored) : addHeader u t = u := by
  unfold addHeader
  split
  · rename_i kind
    rw [kind] at hi
    cases hi
  · rename_i kind
    rw [kind] at hi
    cases hi
  · rfl

end TypeAtlas.Syntax
