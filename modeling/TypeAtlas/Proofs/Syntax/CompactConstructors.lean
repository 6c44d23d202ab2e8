import TypeAtlas.Extraction.Resolution
import TypeAtlas.Proofs.Syntax.Bodies

/-! The parameters of compact constructors. A compact constructor is given the fields that have been read so far: the
components of its record, and whatever fields are declared before it. Fields and methods of a type are collected by
one fold over the members of its body, in which the state before a member is that after those in front of it. -/

namespace TypeAtlas.Syntax

namespace Tree

/-! ### Members in order -/

mutual

/-- The named nodes of a body, with what an enum declares after its constants in the place of the node around it. -/
def members : List Tree → List Tree
  | [] => []
  | t :: ts => membersAt t ++ members ts
termination_by structural ts => ts

def membersAt : Tree → List Tree
  | ⟨kind, isNamed, field, text, line, children⟩ =>
    if !isNamed then []
    else if kind = .enumBodyDeclarations then members children
    else [⟨kind, isNamed, field, text, line, children⟩]
termination_by structural t => t

end

def fieldCount (t : Tree) : Nat :=
  match t.kind with
  | .enumConstant => 1
  | .fieldDeclaration | .constantDeclaration => (ofKind .variableDeclarator t.namedChildren).length
  | _ => 0

def isMethodLike (t : Tree) : Bool :=
  match t.kind with
  | .methodDeclaration | .annotationTypeElementDeclaration => true
  | .constructorDeclaration | .compactConstructorDeclaration => true
  | _ => false

def addMember (o : Owner) (s : List FieldDecl × List MethodDecl) (t : Tree) :
    Except Error (List FieldDecl × List MethodDecl) := do
  let fields ← t.memberFields o
  let method ← t.memberMethod o s.1
  .ok (s.1 ++ fields, s.2 ++ method.toList)

variable {o : Owner} {t : Tree} {ts : List Tree}

mutual

theorem isNamed_of_mem_members : (ts : List Tree) → ∀ t ∈ members ts, t.isNamed = true
  | [], t, ht => by simp [members] at ht
  | u :: ts, t, ht => by
    rw [members] at ht
    exact (List.mem_append.mp ht).elim (isNamed_of_mem_membersAt u t) (isNamed_of_mem_members ts t)
termination_by structural ts => ts

theorem isNamed_of_mem_membersAt : (u : Tree) → ∀ t ∈ membersAt u, t.isNamed = true
  | ⟨kind, isNamed, field, text, line, children⟩, t, ht => by
    rw [membersAt] at ht
    split at ht
    · simp at ht
    · rename_i named
      split at ht
      · exact isNamed_of_mem_members children t ht
      · cases List.mem_singleton.mp ht
        simpa using named
termination_by structural u => u

end

theorem membersAt_eq (t : Tree) : membersAt t =
    if !t.isNamed then [] else if t.kind = .enumBodyDeclarations then members t.children else [t] := by
  obtain ⟨kind, isNamed, field, text, line, children⟩ := t
  rw [membersAt]

/-- A type adds neither fields nor methods to the type around it. -/
theorem addMember_of_declaresType (s : List FieldDecl × List MethodDecl) (type : t.DeclaresType) :
    addMember o s t = .ok s := by
  obtain ⟨kind, -⟩ := type
  have fields : t.memberFields o = .ok [] := by
    unfold memberFields
    split
    · rfl
    · split <;> simp_all [NodeKind.typeKind?]
  have method : t.memberMethod o s.1 = .ok none := by
    unfold memberMethod
    split
    · rfl
    · split <;> simp_all [NodeKind.typeKind?]
  rw [addMember, fields, method]
  simp [bind, Except.bind]

theorem length_of_fields {fields : List FieldDecl} (h : t.fields o = .ok fields) :
    fields.length = (ofKind .variableDeclarator t.namedChildren).length := by
  obtain ⟨signature, -, h⟩ := bind_eq_ok.mp h
  cases h
  exact List.length_map _

theorem length_of_memberFields {fields : List FieldDecl} (named : t.isNamed = true)
    (h : t.memberFields o = .ok fields) : fields.length = t.fieldCount := by
  unfold memberFields at h
  rw [if_neg (by simp [named])] at h
  split at h
  · rename_i kind
    cases h
    rw [fieldCount, kind]
    rfl
  · rename_i kind
    rw [fieldCount, kind, length_of_fields h]
  · rename_i kind
    rw [fieldCount, kind, length_of_fields h]
  · cases h
    unfold fieldCount
    split <;> simp_all

theorem length_of_memberMethod {fields : List FieldDecl} {method : Option MethodDecl} (named : t.isNamed = true)
    (h : t.memberMethod o fields = .ok method) : method.toList.length = if t.isMethodLike then 1 else 0 := by
  unfold memberMethod at h
  rw [if_neg (by simp [named])] at h
  split at h
  -- the four kinds of methods and constructors, and then all others
  iterate 4
    · rename_i kind
      obtain ⟨r, -, rfl⟩ := exists_of_map_some h
      rw [isMethodLike, kind]
      rfl
  · cases h
    unfold isMethodLike
    split <;> simp_all

/-- After some members there are more fields and methods, as many as the members declare. -/
theorem counts_of_foldlM (named : ∀ t ∈ ts, t.isNamed = true) : ∀ {s s' : List FieldDecl × List MethodDecl},
    ts.foldlM (addMember o) s = .ok s' → (∃ fields, s'.1 = s.1 ++ fields ∧ fields.length = (ts.map fieldCount).sum) ∧
      ∃ methods, s'.2 = s.2 ++ methods ∧ methods.length = ts.countP isMethodLike := by
  induction ts with
  | nil =>
    intro s s' h
    cases h
    exact ⟨⟨[], (List.append_nil _).symm, rfl⟩, [], (List.append_nil _).symm, rfl⟩
  | cons t ts ih =>
    intro s s' h
    rw [List.foldlM_cons] at h
    obtain ⟨s₁, step, h⟩ := bind_eq_ok.mp h
    obtain ⟨fields, hf, step⟩ := bind_eq_ok.mp step
    obtain ⟨method, hm, step⟩ := bind_eq_ok.mp step
    cases step
    have first := named t List.mem_cons_self
    obtain ⟨⟨fields', eq, count⟩, methods', eq', count'⟩ := ih (fun u hu => named u (List.mem_cons_of_mem _ hu)) h
    refine ⟨⟨fields ++ fields', by rw [eq, List.append_assoc], ?_⟩, method.toList ++ methods', ?_, ?_⟩
    · rw [List.length_append, length_of_memberFields first hf, count, List.map_cons, List.sum_cons]
    · rw [eq', List.append_assoc]
    · rw [List.length_append, length_of_memberMethod first hm, count', List.countP_cons, Nat.add_comm]

end Tree

/-- The fields and methods of a body are collected by adding those of its members one after the other. -/
theorem Collects.foldlM_eq {o : Owner} {m m' : Members} {ts : List Tree} (h : Collects o m ts m') :
    (Tree.members ts).foldlM (Tree.addMember o) (m.fields, m.methods) = .ok (m'.fields, m'.methods) := by
  induction h with
  | done o m =>
    rw [Tree.members]
    rfl
  | @plain o m m' t ts fields method plain fields_eq method_eq _ ih =>
    rw [Tree.members, Tree.membersAt_eq]
    by_cases named : t.isNamed = true
    · have step : t.addMember o (m.fields, m.methods) = .ok (m.fields ++ fields, m.methods ++ method.toList) := by
        rw [Tree.addMember, fields_eq, method_eq]
        rfl
      rw [if_neg (by simp [named]), if_neg (plain named).1, List.singleton_append, List.foldlM_cons, step]
      exact ih
    · have unnamed : (!t.isNamed) = true := by simpa using named
      rw [Tree.memberFields, if_pos unnamed] at fields_eq
      rw [Tree.memberMethod, if_pos unnamed] at method_eq
      cases fields_eq
      cases method_eq
      rw [if_pos unnamed, List.nil_append]
      simpa using ih
  | constants named kind _ _ inside rest =>
    rw [Tree.members, Tree.membersAt_eq, if_neg (by simp [named]), if_pos kind, List.foldlM_append, inside]
    exact rest
  | @type o inner m body m' t ts d named begins _ _ _ rest =>
    have kind : t.kind ≠ .enumBodyDeclarations := fun kind => Tree.not_declaresType kind begins.declaresType
    rw [Tree.members, Tree.membersAt_eq, if_neg (by simp [named]), if_neg kind, List.singleton_append,
      List.foldlM_cons, Tree.addMember_of_declaresType _ begins.declaresType]
    exact rest

/-! ### Records -/

def componentParameters (components : List ParameterDecl) : List ParameterDecl :=
  components.map fun p => ⟨p.name, Resolution.parameterSignature p, false⟩

def fieldParameters (fields : List FieldDecl) : List ParameterDecl := fields.map fun f => ⟨f.name, f.signature, false⟩

theorem components_of_begins {t : Tree} {p : Place} {d : Declaration} {o : Owner} (record : t.kind = .recordDeclaration)
    (h : t.Begins p d o) : ∃ components, t.parameters p.path = .ok components ∧
      d.fields.length = components.length ∧ fieldParameters d.fields = componentParameters components := by
  obtain ⟨-, -, head⟩ := h
  unfold Tree.declarationHead at head
  obtain ⟨typeParameters, -, head⟩ := bind_eq_ok.mp head
  obtain ⟨supertypes, -, head⟩ := bind_eq_ok.mp head
  dsimp only at head
  rw [if_pos record] at head
  obtain ⟨fields, hf, head⟩ := bind_eq_ok.mp head
  cases head
  obtain ⟨components, hc, hf⟩ := bind_eq_ok.mp hf
  cases hf
  refine ⟨components, hc, List.length_map _, ?_⟩
  rw [fieldParameters, List.map_map]
  rfl

/-- A compact constructor as it is read after some fields. -/
structure CompactAfter (path : Option String) (fields : List FieldDecl) (t : Tree) (m : MethodDecl) : Prop where
  isConstructor : m.isConstructor = true
  parameters_eq : ∃ own, t.parameters path = .ok own ∧ m.parameters = fieldParameters fields ++ own

theorem compactAfter_of_memberMethod {o : Owner} {fields : List FieldDecl} {t : Tree} {method : Option MethodDecl}
    (named : t.isNamed = true) (kind : t.kind = .compactConstructorDeclaration)
    (h : t.memberMethod o fields = .ok method) : ∃ m, method = some m ∧ CompactAfter o.place.path fields t m := by
  rw [Tree.memberMethod, if_neg (by simp [named]), kind] at h
  obtain ⟨m, hm, rfl⟩ := Tree.exists_of_map_some h
  unfold Tree.constructor Tree.completeMethod at hm
  obtain ⟨typeParameters, -, hm⟩ := bind_eq_ok.mp hm
  obtain ⟨own, ho, hm⟩ := bind_eq_ok.mp hm
  obtain ⟨throws, -, hm⟩ := bind_eq_ok.mp hm
  cases hm
  rw [if_pos kind]
  exact ⟨_, rfl, rfl, own, ho, rfl⟩

/-- What a record gives: the components as its first fields, and for every compact constructor the fields up to it as
the first parameters. -/
structure RecordRead (path : Option String) (t : Tree) (d : Declaration) (components : List ParameterDecl) : Prop where
  components_eq : t.parameters path = .ok components
  fields_eq : fieldParameters (d.fields.take components.length) = componentParameters components
  length_eq : d.fields.length = components.length + ((Tree.members (Tree.bodyChildren t.children)).map Tree.fieldCount).sum
  compact : ∀ before c after, Tree.members (Tree.bodyChildren t.children) = before ++ c :: after →
    c.kind = .compactConstructorDeclaration → ∃ m, d.methods[before.countP Tree.isMethodLike]? = some m ∧
      CompactAfter path (d.fields.take (components.length + (before.map Tree.fieldCount).sum)) c m

/-- The members before a compact constructor give the fields that it takes for parameters. -/
theorem compactAfter_of_foldlM {o : Owner} {before after : List Tree} {c : Tree}
    {s s' : List FieldDecl × List MethodDecl} (named : ∀ t ∈ before ++ c :: after, t.isNamed = true)
    (kind : c.kind = .compactConstructorDeclaration) (h : (before ++ c :: after).foldlM (Tree.addMember o) s = .ok s') :
    ∃ m, s'.2[s.2.length + before.countP Tree.isMethodLike]? = some m ∧
      CompactAfter o.place.path (s'.1.take (s.1.length + (before.map Tree.fieldCount).sum)) c m := by
  rw [List.foldlM_append] at h
  obtain ⟨s₁, first, h⟩ := bind_eq_ok.mp h
  rw [List.foldlM_cons] at h
  obtain ⟨s₂, step, rest⟩ := bind_eq_ok.mp h
  obtain ⟨⟨fields, fields_eq, count⟩, methods, methods_eq, count'⟩ :=
    Tree.counts_of_foldlM (fun t ht => named t (List.mem_append_left _ ht)) first
  obtain ⟨⟨later, later_eq, -⟩, after', after_eq, -⟩ :=
    Tree.counts_of_foldlM (fun t ht => named t (List.mem_append_right _ (List.mem_cons_of_mem _ ht))) rest
  obtain ⟨own, -, step⟩ := bind_eq_ok.mp step
  obtain ⟨method, hm, step⟩ := bind_eq_ok.mp step
  cases step
  obtain ⟨m, rfl, compact⟩ := compactAfter_of_memberMethod (named c (by simp)) kind hm
  refine ⟨m, ?_, ?_⟩
  · rw [after_eq, methods_eq, ← count', ← List.length_append, Option.toList_some, List.append_assoc, List.singleton_append,
      List.getElem?_append_right (Nat.le_refl _), Nat.sub_self]
    rfl
  · rwa [later_eq, List.append_assoc, ← count, ← List.length_append, ← fields_eq, List.take_left]

theorem recordRead_of_readAt {path : Option String} {unit : CompilationUnit} {n : TypeNode} {d : Declaration}
    (record : n.node.kind = .recordDeclaration) (h : n.ReadAt path unit d) :
    ∃ components, RecordRead path n.node d components := by
  obtain ⟨rfl, -, -, begins, body⟩ := h
  obtain ⟨components, eq, length, parameters⟩ := components_of_begins record begins
  have named := Tree.isNamed_of_mem_members (Tree.bodyChildren n.node.children)
  have fold := body.foldlM_eq
  obtain ⟨⟨fields, fields_eq, count⟩, -⟩ := Tree.counts_of_foldlM named fold
  refine ⟨components, eq, ?_, ?_, fun before c after split kind => ?_⟩
  · dsimp only at fields_eq ⊢
    rw [fields_eq, ← length, List.take_left, parameters]
  · dsimp only at fields_eq ⊢
    rw [fields_eq, List.length_append, length, count]
  · rw [split] at named fold
    have compact := compactAfter_of_foldlM named kind fold
    dsimp only at compact
    rwa [length, List.length_nil, Nat.zero_add, begins.place_eq] at compact

/-- The components are all parameters of a compact constructor if no field is declared before it and it writes none. -/
theorem RecordRead.parameters_iff {path : Option String} {t c : Tree} {d : Declaration}
    {components : List ParameterDecl} {before after : List Tree} {m : MethodDecl} (h : RecordRead path t d components)
    (split : Tree.members (Tree.bodyChildren t.children) = before ++ c :: after)
    (kind : c.kind = .compactConstructorDeclaration) (hm : d.methods[before.countP Tree.isMethodLike]? = some m) :
    m.parameters = componentParameters components ↔
      (before.map Tree.fieldCount).sum = 0 ∧ c.parameters path = .ok [] := by
  have enough : components.length + (before.map Tree.fieldCount).sum ≤ d.fields.length := by
    rw [h.length_eq, split, List.map_append, List.sum_append]
    omega
  obtain ⟨m', hm', -, own, ho, eq⟩ := h.compact before c after split kind
  cases hm.symm.trans hm'
  rw [eq, ho]
  constructor
  · intro same
    have lengths := congrArg List.length same
    simp only [List.length_append, fieldParameters, componentParameters, List.length_map, List.length_take,
      Nat.min_eq_left enough] at lengths
    exact ⟨by omega, congrArg _ (List.length_eq_zero_iff.mp (by omega))⟩
  · rintro ⟨none, same⟩
    cases same
    rw [none, Nat.add_zero, List.append_nil, h.fields_eq]

/-- Every record begins its fields with its components, and each of its compact constructors takes the fields up to it
for parameters: the components and, in front of parameters that it writes itself, all fields that members before it
declare. So the components are all its parameters exactly if no field is declared before it and it writes none. -/
theorem read_compactConstructors {f : ParsedFile} {path : Option String} {ds : List Declaration} {s s' : List Warning}
    (h : Gives (f.read path) s ds s') :
    ∃ ns : List TypeNode, ns.Pairwise (fun m n => m.position < n.position) ∧ (∀ n, n ∈ ns ↔ f.Declares n) ∧
      List.Forall₂ (fun n d => n.node.kind = .recordDeclaration → ∃ components,
        RecordRead path n.node d components ∧
        ∀ before c after m, Tree.members (Tree.bodyChildren n.node.children) = before ++ c :: after →
          c.kind = .compactConstructorDeclaration → d.methods[before.countP Tree.isMethodLike]? = some m →
            (m.parameters = componentParameters components ↔
              (before.map Tree.fieldCount).sum = 0 ∧ c.parameters path = .ok [])) ns ds := by
  refine ⟨topTypes f.root.children, ascending_topTypes _, fun _ => f.mem_types, (readAt_of_read h).imp ?_⟩
  intro n d read record
  obtain ⟨components, recordRead⟩ := recordRead_of_readAt record read
  exact ⟨components, recordRead, fun before c after m split kind hm => recordRead.parameters_iff split kind hm⟩

/-- `record Point(int x, int... y) { static int count; Point {} }` -/
def pointRecord : Tree :=
  let int (field : Option String) : Tree := ⟨.integralType, true, field, "int", 1, []⟩
  let name (text : String) : Tree := ⟨.identifier, true, some "name", text, 1, []⟩
  let declarator (text : String) : Tree := ⟨.variableDeclarator, true, none, text, 1, [name text]⟩
  let components : List Tree := [
    ⟨.formalParameter, true, none, "", 1, [int (some "type"), name "x"]⟩,
    ⟨.spreadParameter, true, none, "", 1, [int none, declarator "y"]⟩]
  let body : List Tree := [
    ⟨.fieldDeclaration, true, none, "", 1, [
      ⟨.modifiers, true, none, "static", 1, [⟨.staticKeyword, false, none, "static", 1, []⟩]⟩,
      int (some "type"), declarator "count"]⟩,
    ⟨.compactConstructorDeclaration, true, none, "", 1, [name "Point"]⟩]
  ⟨.recordDeclaration, true, none, "", 1, [name "Point",
    ⟨.other "formal_parameters", true, some "parameters", "", 1, components⟩,
    ⟨.other "class_body", true, some "body", "", 1, body⟩]⟩

def pointFile : ParsedFile where
  root := ⟨.other "program", true, none, "", 1, [pointRecord]⟩

def pointDeclaration : Declaration :=
  let scope : Option Scope := some (.lexical { enclosing := ["Point"] })
  { name := "Point", superclass := some "Qjava.lang.Record;", scope := scope
    fields := [⟨"x", "I", ["private", "final"], false⟩, ⟨"y", "[I", ["private", "final"], false⟩,
      ⟨"count", "I", ["static"], false⟩]
    methods := [{ name := "Point", isConstructor := true, scope := scope
                  parameters := [⟨"x", "I", false⟩, ⟨"y", "[I", false⟩, ⟨"count", "I", false⟩] }] }

/-- The compact constructor takes the field before it for a parameter. -/
theorem read_compactConstructors_point : Gives (pointFile.read none) [] [pointDeclaration] [] ∧
    ∃ components, RecordRead none pointRecord pointDeclaration components ∧
      ∀ m ∈ pointDeclaration.methods, m.isConstructor = true ∧ m.parameters ≠ componentParameters components := by
  have h : Gives (pointFile.read none) [] [pointDeclaration] [] := by cbv
  refine ⟨h, ?_⟩
  obtain ⟨ns, -, nodes, reads⟩ := read_compactConstructors h
  obtain ⟨n, rest, record, alone, rfl⟩ := List.forall₂_cons_right_iff.mp reads
  cases alone
  have declared : pointFile.Declares ⟨[0], pointRecord, []⟩ := .top rfl rfl (by decide)
  obtain rfl := List.mem_singleton.mp ((nodes _).mpr declared)
  obtain ⟨components, recordRead, parameters⟩ := record rfl
  refine ⟨components, recordRead, fun m hm => ⟨?_, fun same => ?_⟩⟩
  · cases List.mem_singleton.mp hm
    rfl
  · cases List.mem_singleton.mp hm
    have fields := ((parameters [_] _ [] _ rfl rfl rfl).mp same).1
    revert fields
    decide

end TypeAtlas.Syntax
