import TypeAtlas.Proofs.Syntax.Steps
import TypeAtlas.Proofs.Syntax.TypeNames
import TypeAtlas.Proofs.Syntax.Words
import TypeAtlas.Syntax.SourceText

/-! How the types in a source text are named. The grammar takes the name of a type from an identifier, and
identifiers are words; so in every tree that it makes the names of types have no dots. -/

namespace TypeAtlas.Syntax

namespace Tree

variable {t : Tree} {ts us : List Tree}

/-- A node without children has no name either. -/
theorem declaresIdentifiers_of_childless (h : t.children = []) : t.DeclaresIdentifiers :=
  declaresIdentifiers_iff.mpr ⟨fun _ => by simp [nameText, fieldText, child?, h], by simp [h]⟩

theorem DeclaresIdentifiers.withField (h : t.DeclaresIdentifiers) (field : Option String) :
    DeclaresIdentifiers { t with field := field } :=
  declaresIdentifiers_iff.mpr ⟨h t .refl, fun _ hc => h.child hc⟩

def AllDeclareIdentifiers (ts : List Tree) : Prop := ∀ t ∈ ts, t.DeclaresIdentifiers

@[simp] theorem allDeclareIdentifiers_nil : AllDeclareIdentifiers [] := nofun

@[simp] theorem allDeclareIdentifiers_cons :
    AllDeclareIdentifiers (t :: ts) ↔ t.DeclaresIdentifiers ∧ AllDeclareIdentifiers ts := List.forall_mem_cons

@[simp] theorem allDeclareIdentifiers_append :
    AllDeclareIdentifiers (ts ++ us) ↔ AllDeclareIdentifiers ts ∧ AllDeclareIdentifiers us := List.forall_mem_append

theorem allDeclareIdentifiers_toList {o : Option Tree} (h : ∀ t ∈ o, t.DeclaresIdentifiers) :
    AllDeclareIdentifiers o.toList := fun t ht => h t (Option.mem_toList.mp ht)

end Tree

namespace Parse

open TypeAtlas.Syntax.Tree

variable {P : Token → Prop}

@[simp] theorem declaresIdentifiers_leaf {kind : NodeKind} {field : Option String} {t : Token} :
    (leaf kind field t).DeclaresIdentifiers := declaresIdentifiers_of_childless rfl

@[simp] theorem declaresIdentifiers_nameLeaf {t : Token} : (nameLeaf t).DeclaresIdentifiers :=
  declaresIdentifiers_of_childless rfl

@[simp] theorem declaresIdentifiers_token {t : Token} : (token t).DeclaresIdentifiers :=
  declaresIdentifiers_of_childless rfl

section

variable {kind : NodeKind} {field : Option String} {start : Token} {children : List Tree}

theorem yields_plain (type : kind.typeKind? = none) (h : AllDeclareIdentifiers children) :
    Yields P (node kind field start children) DeclaresIdentifiers :=
  (yields_node _ _ _ _).imp fun _ ht => declaresIdentifiers_iff.mpr ⟨by simp [ht.1, type], ht.2.2 ▸ h⟩

theorem yields_singleton (type : kind.typeKind? = none) (h : AllDeclareIdentifiers children) :
    Yields P (do return [← node kind field start children]) AllDeclareIdentifiers :=
  (yields_plain type h).bind fun _ ht => .pure (List.forall_mem_singleton.mpr ht)

end

/-! ### Types -/

theorem yields_bracketPair : Yields P bracketPair DeclaresIdentifiers :=
  keeps_annotations.then fun _ => (keeps_symbol _).then fun _ => (keeps_symbol _).then fun _ =>
    .pure (declaresIdentifiers_of_childless rfl)

theorem yields_dimensions? : Yields P dimensions? fun o => ∀ t ∈ o, t.DeclaresIdentifiers := by
  refine yields_get.keeps.then fun c => keeps_left.then fun limit => ?_
  refine (yields_many (yields_attempt yields_bracketPair) limit).bind fun pairs hpairs => ?_
  split
  · exact (yields_plain rfl hpairs).bind fun t ht => .pure (by rintro _ ⟨⟩; exact ht)
  · exact .pure nofun

theorem yields_arrayOf {element : Tree} (start : Token) (h : element.DeclaresIdentifiers) :
    Yields P (arrayOf start element) DeclaresIdentifiers := by
  refine yields_dimensions?.bind fun o ho => ?_
  split
  · exact .pure h
  · exact yields_plain rfl (by simp [h.withField, ho])

mutual

theorem yields_type : ∀ limit, Yields P (type limit) DeclaresIdentifiers
  | 0 => .failure
  | limit + 1 => by
    unfold type
    refine keeps_take.then fun start => ?_
    split
    · exact yields_arrayOf start declaresIdentifiers_leaf
    · refine .ite (fun _ => ?_) fun _ => .failure
      exact (yields_segments limit start _ declaresIdentifiers_leaf).bind fun path => yields_arrayOf start

theorem yields_segments : ∀ limit start path, path.DeclaresIdentifiers →
    Yields P (segments limit start path) DeclaresIdentifiers
  | 0, _, _, _ => .failure
  | limit + 1, start, path, hpath => by
    unfold segments
    refine keeps_ahead.then fun ts => ?_
    split
    · refine .ite (fun _ => ?_) fun _ => .ite (fun _ => ?_) fun _ => .pure hpath
      · refine (yields_typeArguments limit).bind fun arguments harguments => ?_
        exact (yields_plain rfl (by simp [hpath, harguments])).bind (yields_segments limit start)
      · refine keeps_take.then fun _ => keeps_annotations.then fun _ => keeps_identifier.then fun name => ?_
        exact (yields_plain rfl (by simp [hpath])).bind (yields_segments limit start)
    · exact .pure hpath

theorem yields_typeArguments : ∀ limit, Yields P (typeArguments limit) DeclaresIdentifiers
  | 0 => .failure
  | limit + 1 => by
    unfold typeArguments
    refine (keeps_symbol _).then fun start => (keeps_takeIf _).then fun _ => .ite (fun _ => ?_) fun _ => ?_
    · exact yields_plain rfl (by simp)
    · refine (yields_typeArgument limit).bind fun first hfirst => ?_
      refine (yields_moreTypeArguments limit).bind fun rest hrest => ?_
      exact (keeps_symbol _).then fun _ => yields_plain rfl (by simp [hfirst, hrest])

theorem yields_moreTypeArguments : ∀ limit, Yields P (moreTypeArguments limit) AllDeclareIdentifiers
  | 0 => .failure
  | limit + 1 => by
    unfold moreTypeArguments
    refine (keeps_takeIf _).then fun _ => .ite (fun _ => ?_) fun _ => .pure (by simp)
    refine (yields_typeArgument limit).bind fun first hfirst => ?_
    exact (yields_moreTypeArguments limit).bind fun rest hrest => .pure (by simp [hfirst, hrest])

theorem yields_typeArgument : ∀ limit, Yields P (typeArgument limit) DeclaresIdentifiers
  | 0 => .failure
  | limit + 1 => by
    unfold typeArgument
    refine keeps_look.then fun start => keeps_annotations.then fun isAnnotated => (keeps_takeIf _).then fun _ => ?_
    refine .ite (fun _ => (keeps_takeIf _).then fun _ => .ite (fun _ => ?_) fun _ => ?_) fun _ => ?_
    · exact (yields_annotatedType limit).bind fun bound hbound => yields_plain rfl (by simp [hbound])
    · refine (keeps_nextIs _).then fun _ => .ite (fun _ => ?_) fun _ => yields_plain rfl (by simp)
      refine keeps_take.then fun word => (yields_annotatedType limit).bind fun bound hbound => ?_
      exact yields_plain rfl (by simp [hbound])
    · exact (yields_type limit).bind fun t ht => .ite (fun _ => yields_plain rfl (by simp [ht])) fun _ => .pure ht

theorem yields_annotatedType : ∀ limit, Yields P (annotatedType limit) DeclaresIdentifiers
  | 0 => .failure
  | limit + 1 => by
    unfold annotatedType
    refine keeps_look.then fun start => keeps_annotations.then fun isAnnotated => ?_
    exact (yields_type limit).bind fun t ht => .ite (fun _ => yields_plain rfl (by simp [ht])) fun _ => .pure ht

end

/-! ### Parts of declarations -/

theorem keeps_expression (ends : Token → Bool) : ∀ limit, Keeps P (expression ends limit)
  | 0 => .failure
  | limit + 1 => by
    unfold expression
    have rest := keeps_expression ends limit
    refine keeps_look.then fun t => .ite (fun _ => .pure trivial) fun _ => ?_
    refine .ite (fun _ => keeps_group.then fun _ => rest) fun _ => ?_
    refine .ite (fun _ => Keeps.then .failure fun _ => rest) fun _ => Keeps.then (.ite ?_ ?_) fun o => ?_
    · exact fun _ => (yields_attempt (yields_typeArguments limit)).keeps
    · exact fun _ => .pure trivial
    · split
      · exact rest
      · exact keeps_take.then fun _ => rest

theorem keeps_value (ends : Token → Bool) (limit : Nat) : Keeps P (value ends limit) :=
  (keeps_nextIs _).then fun _ => .ite (fun _ => .failure) fun _ => keeps_expression ends limit

theorem yields_modifier? : Yields P modifier? fun o => ∀ ts ∈ o, AllDeclareIdentifiers ts := by
  refine keeps_ahead.then fun ts => ?_
  split
  · refine .ite (fun _ => ?_) fun _ => .ite (fun _ => ?_) fun _ => ?_
    · refine keeps_take.then fun _ => keeps_take.then fun _ => keeps_take.then fun _ => .pure ?_
      rintro _ ⟨⟩
      simp
    · exact keeps_take.then fun t => .pure (by rintro _ ⟨⟩; simp)
    · refine keeps_annotation?.then fun o => .pure ?_
      cases o <;> simp
  · exact .pure nofun

/-- None of the nodes is known by a field, and so none of them as a name. -/
def Fieldless (ts : List Tree) : Prop := ∀ t ∈ ts, t.field = none

theorem yields_modifiers : Yields P modifiers fun ts => Fieldless ts ∧ AllDeclareIdentifiers ts := by
  refine yields_get.keeps.then fun c => keeps_left.then fun limit => ?_
  refine (yields_many yields_modifier? limit).bind fun found hfound => ?_
  split
  · rename_i start _ first rest _
    obtain ⟨hfirst, hrest⟩ := List.forall_mem_cons.mp hfound
    have parts : AllDeclareIdentifiers (first ++ rest.flatten) := by
      refine allDeclareIdentifiers_append.mpr ⟨hfirst, fun t ht => ?_⟩
      obtain ⟨ts, hts, ht⟩ := List.mem_flatten.mp ht
      exact hrest ts hts t ht
    refine (yields_node _ _ _ _).bind fun t ht => .pure ⟨List.forall_mem_singleton.mpr ht.2.1, ?_⟩
    exact List.forall_mem_singleton.mpr (declaresIdentifiers_iff.mpr ⟨by simp [ht.1, NodeKind.typeKind?], ht.2.2 ▸ parts⟩)
  · exact .pure ⟨nofun, nofun⟩

theorem yields_commaTypes (limit : Nat) : Yields P (commaTypes limit) AllDeclareIdentifiers :=
  yields_commaSeparated (yields_annotatedType limit)

theorem yields_typeClause (limit : Nat) (word : String) {kind : NodeKind} (type : kind.typeKind? = none) :
    Yields P (typeClause limit word kind) AllDeclareIdentifiers := by
  refine (keeps_nextIs _).then fun _ => .ite (fun _ => ?_) fun _ => .pure nofun
  refine keeps_take.then fun start => keeps_look.then fun first => (yields_commaTypes limit).bind fun types htypes => ?_
  exact (yields_plain rfl htypes).bind fun list hlist => yields_singleton type (by simp [hlist])

theorem yields_superclass (limit : Nat) : Yields P (superclass limit) AllDeclareIdentifiers := by
  refine (keeps_nextIs _).then fun _ => .ite (fun _ => ?_) fun _ => .pure nofun
  exact keeps_take.then fun start => (yields_annotatedType limit).bind fun t ht => yields_singleton rfl (by simp [ht])

theorem yields_throwsClause (limit : Nat) : Yields P (throwsClause limit) AllDeclareIdentifiers := by
  refine (keeps_nextIs _).then fun _ => .ite (fun _ => ?_) fun _ => .pure nofun
  exact keeps_take.then fun start => (yields_commaTypes limit).bind fun types htypes => yields_singleton rfl htypes

theorem yields_typeBound (limit : Nat) : Yields P (typeBound limit) AllDeclareIdentifiers := by
  have next : Yields P (do if ← takeIf (·.isSymbol '&') then return some (← annotatedType limit) else return none)
      fun o => ∀ t ∈ o, t.DeclaresIdentifiers := by
    refine (keeps_takeIf _).then fun _ => .ite (fun _ => ?_) fun _ => .pure nofun
    exact (yields_annotatedType limit).bind fun t ht => .pure (by rintro _ ⟨⟩; exact ht)
  refine (keeps_nextIs _).then fun _ => .ite (fun _ => ?_) fun _ => .pure nofun
  refine keeps_take.then fun start => (yields_annotatedType limit).bind fun first hfirst => ?_
  refine keeps_left.then fun bounds => (yields_many next bounds).bind fun rest hrest => ?_
  exact yields_singleton rfl (List.forall_mem_cons.mpr ⟨hfirst, hrest⟩)

theorem yields_typeParameter (limit : Nat) : Yields P (typeParameter limit) DeclaresIdentifiers := by
  refine keeps_look.then fun start => keeps_annotations.then fun _ => keeps_identifier.then fun name => ?_
  exact (yields_typeBound limit).bind fun bound hbound => yields_plain rfl (by simp [hbound])

theorem yields_typeParameters (limit : Nat) : Yields P (typeParameters limit) AllDeclareIdentifiers := by
  refine (keeps_nextIs _).then fun _ => .ite (fun _ => ?_) fun _ => .pure nofun
  refine keeps_take.then fun start => ?_
  refine (yields_commaSeparated (yields_typeParameter limit)).bind fun parameters hparameters => ?_
  exact (keeps_symbol _).then fun _ => yields_singleton rfl hparameters

theorem yields_declaratorId : Yields P declaratorId AllDeclareIdentifiers :=
  keeps_identifier.then fun name => yields_dimensions?.bind fun dimensions hdimensions =>
    .pure (by simp [allDeclareIdentifiers_toList hdimensions])

theorem keeps_dots : Keeps P dots := by
  refine keeps_ahead.then fun ts => ?_
  split
  · refine .ite (fun _ => ?_) fun _ => .pure trivial
    exact keeps_take.then fun _ => keeps_take.then fun _ => keeps_take.then fun _ => .pure trivial
  · exact .pure trivial

theorem keeps_ellipsis : Keeps P ellipsis := by
  refine (yields_attempt (Q := fun _ => True) ?_).keeps.then fun _ => .pure trivial
  exact keeps_annotations.then fun _ => keeps_dots.then fun _ => .ite (fun _ => .pure trivial) fun _ => .failure

theorem yields_formalParameter (limit : Nat) : Yields P (formalParameter limit) DeclaresIdentifiers := by
  refine keeps_look.then fun start => yields_modifiers.bind fun modifiers ⟨_, hm⟩ => ?_
  refine (yields_type limit).bind fun t ht => keeps_ellipsis.then fun _ => .ite (fun _ => ?_) fun _ => ?_
  · refine keeps_look.then fun first => yields_declaratorId.bind fun name hname => ?_
    exact (yields_plain rfl hname).bind fun declarator hdeclarator => yields_plain rfl (by simp [hm, ht, hdeclarator])
  · refine (yields_attempt yields_declaratorId).bind fun o ho => ?_
    split
    · rename_i declarator
      refine (keeps_nextIs _).then fun _ => .ite (fun _ => ?_) fun _ => ?_
      · exact Keeps.then (.orElse (keeps_expression _ limit) (.pure trivial)) fun _ => yields_plain rfl (by simp)
      · exact yields_plain rfl (by simp [hm, ht.withField, ho declarator rfl])
    · exact (keeps_word _).then fun _ => yields_plain rfl (by simp)

theorem yields_formalParameters (limit : Nat) : Yields P (formalParameters limit) DeclaresIdentifiers := by
  refine (keeps_symbol _).then fun start => (keeps_nextIs _).then fun _ => ?_
  have close (parameters : List Tree) (h : AllDeclareIdentifiers parameters) : Yields P (do
      let _ ← symbol ')'
      node (.other "formal_parameters") (some "parameters") start parameters) DeclaresIdentifiers :=
    (keeps_symbol _).then fun _ => yields_plain rfl h
  refine .ite (fun _ => (Yields.pure nofun).bind close) fun _ => ?_
  exact (yields_commaSeparated (yields_formalParameter limit)).bind close

theorem yields_block (field : Option String) : Yields P (block field) DeclaresIdentifiers := by
  refine keeps_look.then fun start => .ite (fun _ => Keeps.then .failure fun _ => ?_) fun _ => ?_
  all_goals exact keeps_group.then fun _ => yields_plain rfl (by simp)

theorem yields_variableDeclarator (limit : Nat) : Yields P (variableDeclarator limit) DeclaresIdentifiers := by
  refine keeps_look.then fun start => yields_declaratorId.bind fun name hname => (keeps_takeIf _).then fun _ => ?_
  exact .ite (fun _ => (keeps_value _ limit).then fun _ => yields_plain rfl hname) fun _ => yields_plain rfl hname

theorem yields_methodRest (limit : Nat) : Yields P (methodRest limit) AllDeclareIdentifiers := by
  refine (yields_formalParameters limit).bind fun parameters h₁ => yields_dimensions?.bind fun dimensions h₂ => ?_
  refine (yields_throwsClause limit).bind fun throws h₃ => (keeps_takeIf _).then fun _ => ?_
  have close (body : List Tree) (h₄ : AllDeclareIdentifiers body) :
      AllDeclareIdentifiers (parameters :: dimensions.toList ++ throws ++ body) := by
    simp [h₁, allDeclareIdentifiers_toList h₂, h₃, h₄]
  have last : Yields P (do
      let body ← if ← takeIf (·.isSymbol ';') then pure [] else pure [← block (some "body")]
      return parameters :: dimensions.toList ++ throws ++ body) AllDeclareIdentifiers := by
    refine (keeps_takeIf _).then fun _ => .ite (fun _ => ?_) fun _ => ?_
    · exact (Yields.pure allDeclareIdentifiers_nil).bind fun body hbody => .pure (close body hbody)
    · refine (yields_block _).bind fun block hblock => ?_
      exact (Yields.pure (List.forall_mem_singleton.mpr hblock)).bind fun body hbody => .pure (close body hbody)
  exact .ite (fun _ => (keeps_value _ limit).then fun _ => last) fun _ => last

/-! ### Declarations -/

theorem BodyKind.typeKind?_methodKind (kind : BodyKind) : kind.methodKind.typeKind? = none := by cases kind <;> rfl

theorem BodyKind.typeKind?_fieldKind (kind : BodyKind) : kind.fieldKind.typeKind? = none := by cases kind <;> rfl

theorem yields_plainMember (limit : Nat) (kind : BodyKind) (start : Token) {modifiers : List Tree}
    (hm : AllDeclareIdentifiers modifiers) : Yields P (plainMember limit kind start modifiers) DeclaresIdentifiers := by
  refine (keeps_nextIs _).then fun _ => .ite (fun _ => ?_) fun _ => ?_
  · exact keeps_group.then fun _ => yields_plain rfl (by simp)
  refine (yields_typeParameters limit).bind fun typeParameters htp => keeps_annotations.then fun _ => ?_
  refine keeps_ahead.then fun ts => ?_
  split
  · refine .ite (fun _ => ?_) fun _ => .ite (fun _ => ?_) fun _ => ?_
    · refine keeps_take.then fun name => (yields_methodRest limit).bind fun rest hrest => ?_
      exact yields_plain rfl (by simp [hm, htp, hrest])
    · exact keeps_take.then fun name => (yields_block _).bind fun body hbody => yields_plain rfl (by simp [hm, hbody])
    · refine (yields_type limit).bind fun t ht => keeps_ahead.then fun ts => ?_
      split
      · refine .ite (fun _ => ?_) fun _ => ?_
        · refine keeps_identifier.then fun name => (yields_methodRest limit).bind fun rest hrest => ?_
          exact yields_plain kind.typeKind?_methodKind (by simp [hm, htp, ht.withField, hrest])
        · refine (yields_commaSeparated (yields_variableDeclarator limit)).bind fun declarators hd => ?_
          have hd : AllDeclareIdentifiers declarators := hd
          exact (keeps_symbol _).then fun _ => yields_plain kind.typeKind?_fieldKind (by simp [hm, ht.withField, hd])
      · exact .failure
  · exact .failure

theorem yields_enumConstant : Yields P enumConstant DeclaresIdentifiers := by
  refine keeps_look.then fun start => yields_modifiers.bind fun modifiers ⟨_, hm⟩ => keeps_identifier.then fun name => ?_
  have last : Yields P (do
      if ← nextIs (·.isSymbol '\x7b') then group
      node .enumConstant none start (modifiers ++ [nameLeaf name])) DeclaresIdentifiers := by
    refine (keeps_nextIs _).then fun _ => .ite (fun _ => keeps_group.then fun _ => ?_) fun _ => ?_
    all_goals exact yields_plain rfl (by simp [hm])
  exact (keeps_nextIs _).then fun _ => .ite (fun _ => keeps_group.then fun _ => last) fun _ => last

theorem yields_enumConstants : ∀ limit, Yields P (enumConstants limit) AllDeclareIdentifiers
  | 0 => .failure
  | limit + 1 => by
    unfold enumConstants
    refine (keeps_takeIf _).then fun _ => .ite (fun _ => yields_enumConstants limit) fun _ => ?_
    refine (keeps_nextIs _).then fun _ => .ite (fun _ => .pure nofun) fun _ => ?_
    refine yields_enumConstant.bind fun first hfirst => (yields_enumConstants limit).bind fun rest hrest => ?_
    exact .pure (by simp [hfirst, hrest])

/-- A type declaration is named by the identifier after its modifiers. -/
theorem nameText_of_typeNode {kind : NodeKind} {named : Bool} {field : Option String} {text : String} {line : Nat}
    {modifiers rest : List Tree} {name : Token} (h : Fieldless modifiers) :
    Tree.nameText ⟨kind, named, field, text, line, modifiers ++ nameLeaf name :: rest⟩ = name.text := by
  have none : modifiers.find? (·.field == some "name") = none := by
    rw [List.find?_eq_none]
    intro t ht
    simp [h t ht]
  simp [Tree.nameText, Tree.fieldText, Tree.child?, List.find?_append, none, nameLeaf, leaf]

theorem yields_typeNode {kind : NodeKind} {start name : Token} {modifiers children : List Tree} (rest : List Tree)
    (eq : children = modifiers ++ nameLeaf name :: rest) (hm : Fieldless modifiers)
    (plain : '.' ∉ name.text.toList) (h : AllDeclareIdentifiers children) :
    Yields P (do return some (← node kind none start children)) fun o => ∀ t ∈ o, t.DeclaresIdentifiers := by
  rintro c _ _ hc ⟨⟩
  refine ⟨hc, ?_⟩
  rintro _ ⟨⟩
  refine declaresIdentifiers_iff.mpr ⟨fun _ => ?_, h⟩
  rwa [eq, nameText_of_typeNode hm]

theorem yields_name : Yields Token.Wordy identifier fun t => '.' ∉ t.text.toList := by
  refine yields_identifier.imp fun t ht => ht.1.not_mem ?_
  have word := ht.2
  simp [Token.isIdentifier] at word
  exact word.1.1

mutual

theorem yields_members : ∀ limit kind, Yields Token.Wordy (members limit kind) AllDeclareIdentifiers
  | 0, _ => by
    unfold members
    exact .failure
  | limit + 1, kind => by
    unfold members
    refine (keeps_takeIf _).then fun _ => .ite (fun _ => yields_members limit kind) fun _ => ?_
    refine (keeps_nextIs _).then fun _ => .ite (fun _ => .pure nofun) fun _ => ?_
    refine (yields_member limit kind).bind fun first hfirst => (yields_members limit kind).bind fun rest hrest => ?_
    exact .pure (by simp [hfirst, hrest])

theorem yields_member : ∀ limit kind, Yields Token.Wordy (member limit kind) DeclaresIdentifiers
  | 0, _ => by
    unfold member
    exact .failure
  | limit + 1, kind => by
    unfold member
    refine keeps_look.then fun start => yields_modifiers.bind fun modifiers ⟨fieldless, hm⟩ => ?_
    refine (yields_typeDeclaration? limit start modifiers fieldless hm).bind fun o ho => ?_
    split
    · exact .pure (ho _ rfl)
    · exact yields_plainMember limit kind start hm

theorem yields_body : ∀ limit kind, Yields Token.Wordy (body limit kind) DeclaresIdentifiers
  | 0, _ => by
    unfold body
    exact .failure
  | limit + 1, kind => by
    unfold body
    refine (keeps_symbol _).then fun start => (yields_members limit kind).bind fun members hmembers => ?_
    exact (keeps_symbol _).then fun _ => yields_plain rfl hmembers

theorem yields_enumBody : ∀ limit, Yields Token.Wordy (enumBody limit) DeclaresIdentifiers
  | 0 => by
    unfold enumBody
    exact .failure
  | limit + 1 => by
    unfold enumBody
    refine (keeps_symbol _).then fun start => (yields_enumConstants limit).bind fun constants hconstants => ?_
    have close (more : List Tree) (hmore : AllDeclareIdentifiers more) : Yields Token.Wordy (do
        let _ ← symbol '\x7d'
        node (.other "enum_body") (some "body") start (constants ++ more)) DeclaresIdentifiers :=
      (keeps_symbol _).then fun _ => yields_plain rfl (by simp [hconstants, hmore])
    refine (keeps_nextIs _).then fun _ => .ite (fun _ => ?_) fun _ => (Yields.pure nofun).bind close
    refine keeps_take.then fun first => (yields_members limit .classBody).bind fun members hmembers => ?_
    refine (yields_plain rfl hmembers).bind fun t ht => ?_
    exact (Yields.pure (List.forall_mem_singleton.mpr ht)).bind close

theorem yields_typeDeclaration? : ∀ limit start modifiers, Fieldless modifiers → AllDeclareIdentifiers modifiers →
    Yields Token.Wordy (typeDeclaration? limit start modifiers) fun o => ∀ t ∈ o, t.DeclaresIdentifiers
  | 0, _, _, _, _ => by
    unfold typeDeclaration?
    exact .failure
  | limit + 1, start, modifiers, fieldless, hm => by
    unfold typeDeclaration?
    refine keeps_ahead.then fun ts => ?_
    split
    · refine .ite (fun _ => ?classType) fun _ => .ite (fun _ => ?interfaceType) fun _ =>
        .ite (fun _ => ?annotationType) fun _ => .ite (fun _ => ?enumType) fun _ =>
          .ite (fun _ => ?recordType) fun _ => .pure nofun
      case classType =>
        refine keeps_take.then fun _ => yields_name.bind fun name plain => ?_
        refine (yields_typeParameters limit).bind fun typeParameters h₁ => ?_
        refine (yields_superclass limit).bind fun superclass h₂ => ?_
        refine (yields_typeClause limit _ rfl).bind fun interfaces h₃ => ?_
        refine (yields_typeClause limit _ rfl).bind fun permits h₄ => (yields_body limit _).bind fun body hb => ?_
        exact yields_typeNode (typeParameters ++ superclass ++ interfaces ++ permits ++ [body]) (by simp) fieldless plain
          (by simp [hm, h₁, h₂, h₃, h₄, hb])
      case interfaceType =>
        refine keeps_take.then fun _ => yields_name.bind fun name plain => ?_
        refine (yields_typeParameters limit).bind fun typeParameters h₁ => ?_
        refine (yields_typeClause limit _ rfl).bind fun interfaces h₂ => ?_
        refine (yields_typeClause limit _ rfl).bind fun permits h₃ => (yields_body limit _).bind fun body hb => ?_
        exact yields_typeNode (typeParameters ++ interfaces ++ permits ++ [body]) (by simp) fieldless plain
          (by simp [hm, h₁, h₂, h₃, hb])
      case annotationType =>
        refine keeps_take.then fun _ => keeps_take.then fun _ => yields_name.bind fun name plain => ?_
        exact (yields_body limit _).bind fun body hb => yields_typeNode [body] rfl fieldless plain (by simp [hm, hb])
      case enumType =>
        refine keeps_take.then fun _ => yields_name.bind fun name plain => ?_
        refine (yields_typeClause limit _ rfl).bind fun interfaces h₁ => (yields_enumBody limit).bind fun body hb => ?_
        exact yields_typeNode (interfaces ++ [body]) (by simp) fieldless plain (by simp [hm, h₁, hb])
      case recordType =>
        refine keeps_take.then fun _ => yields_name.bind fun name plain => ?_
        refine (yields_typeParameters limit).bind fun typeParameters h₁ => ?_
        refine (yields_formalParameters limit).bind fun components h₂ => ?_
        refine (yields_typeClause limit _ rfl).bind fun interfaces h₃ => (yields_body limit _).bind fun body hb => ?_
        exact yields_typeNode (typeParameters ++ components :: interfaces ++ [body]) (by simp) fieldless plain
          (by simp [hm, h₁, h₂, h₃, hb])
    · exact .pure nofun

end

/-! ### Files -/

theorem yields_dottedName (start : Token) : ∀ limit path, path.DeclaresIdentifiers →
    Yields P (dottedName start path limit) DeclaresIdentifiers
  | 0, _, _ => .failure
  | limit + 1, path, hpath => by
    unfold dottedName
    refine keeps_ahead.then fun ts => ?_
    split
    · refine .ite (fun _ => ?_) fun _ => .pure hpath
      refine keeps_take.then fun _ => keeps_take.then fun name => ?_
      exact (yields_plain rfl (by simp [hpath.withField])).bind (yields_dottedName start limit)
    · exact .pure hpath

theorem yields_qualifiedName : Yields P qualifiedName DeclaresIdentifiers :=
  keeps_identifier.then fun start => keeps_left.then fun _ => yields_dottedName start _ _ declaresIdentifiers_leaf

theorem yields_packageDeclaration : Yields P packageDeclaration DeclaresIdentifiers := by
  refine keeps_look.then fun start => keeps_annotations.then fun _ => (keeps_word _).then fun _ => ?_
  refine yields_qualifiedName.bind fun name hname => (keeps_symbol _).then fun _ => ?_
  exact yields_plain rfl (by simp [hname])

theorem yields_importDeclaration : Yields P importDeclaration DeclaresIdentifiers := by
  refine (keeps_word _).then fun start => (keeps_nextIs _).then fun _ => ?_
  have rest (static : List Tree) (hstatic : AllDeclareIdentifiers static) : Yields P (do
      let name ← qualifiedName
      let asterisk ←
        if ← takeIf (·.isSymbol '.') then pure [leaf .asterisk none (← symbol '*')] else pure []
      let _ ← symbol ';'
      node .importDeclaration none start (static ++ name :: asterisk)) DeclaresIdentifiers := by
    refine yields_qualifiedName.bind fun name hname => (keeps_takeIf _).then fun _ => ?_
    have close (asterisk : List Tree) (h : AllDeclareIdentifiers asterisk) : Yields P (do
        let _ ← symbol ';'
        node .importDeclaration none start (static ++ name :: asterisk)) DeclaresIdentifiers :=
      (keeps_symbol _).then fun _ => yields_plain rfl (by simp [hstatic, hname, h])
    refine .ite (fun _ => (keeps_symbol _).then fun star => ?_) fun _ => ?_
    all_goals exact (Yields.pure (by simp)).bind close
  refine .ite (fun _ => keeps_take.then fun _ => ?_) fun _ => ?_
  all_goals exact (Yields.pure (by simp)).bind rest

theorem yields_moduleDeclaration : Yields P moduleDeclaration DeclaresIdentifiers := by
  refine keeps_look.then fun start => keeps_annotations.then fun _ => (keeps_takeIf _).then fun _ => ?_
  refine (keeps_word _).then fun _ => yields_qualifiedName.keeps.then fun _ => keeps_group.then fun _ => ?_
  exact yields_plain rfl (by simp)

theorem yields_topType (limit : Nat) : Yields Token.Wordy (topType limit) DeclaresIdentifiers := by
  refine keeps_look.then fun start => yields_modifiers.bind fun modifiers ⟨fieldless, hm⟩ => ?_
  refine (yields_typeDeclaration? limit start modifiers fieldless hm).bind fun o ho => ?_
  split
  · exact .pure (ho _ rfl)
  · exact .failure

theorem keeps_statement : ∀ limit, Keeps P (statement limit)
  | 0 => .failure
  | limit + 1 => by
    unfold statement
    have rest := keeps_statement limit
    refine keeps_look.then fun t => .ite (fun _ => ?_) fun _ => .ite (fun _ => keeps_group) fun _ => ?_
    · exact keeps_take.then fun _ => .pure trivial
    refine .ite (fun _ => .failure) fun _ => .ite (fun _ => ?_) fun _ => ?_
    · exact keeps_group.then fun _ => rest
    · exact keeps_take.then fun _ => .ite (fun _ => keeps_take.then fun _ => rest) fun _ => rest

theorem yields_topLevel (limit : Nat) :
    Yields Token.Wordy (topLevel limit) fun o => ∀ t ∈ o, t.DeclaresIdentifiers := by
  have first := yields_packageDeclaration.orElse (yields_importDeclaration.orElse
    (yields_moduleDeclaration.orElse (yields_topType limit)))
  refine (yields_attempt first).bind fun o ho => ?_
  split
  · exact .pure (by rintro _ ⟨⟩; exact ho _ rfl)
  · exact (keeps_statement limit).then fun _ => .pure nofun

theorem allDeclareIdentifiers_file (limit : Nat) : ∀ (steps : Nat) (c : Cursor), (∀ t ∈ c.tokens, t.Wordy) →
    AllDeclareIdentifiers (file limit steps c).1
  | 0, c, _ => by
    rw [file]
    exact nofun
  | steps + 1, c, hc => by
    rw [file]
    split
    · exact nofun
    · rename_i u us tokens
      split
      · rename_i o c' run
        obtain ⟨hc', ho⟩ := yields_topLevel limit c o c' hc run
        exact allDeclareIdentifiers_append.mpr
          ⟨allDeclareIdentifiers_toList ho, allDeclareIdentifiers_file limit steps c' hc'⟩
      · exact allDeclareIdentifiers_file limit steps _ fun t ht => hc t (tokens ▸ List.mem_cons_of_mem u ht)

end Parse

/-- In the tree of every source text types are declared by identifiers. -/
theorem ParsedFile.declaresIdentifiers_ofText (source : String) : (ofText source).root.DeclaresIdentifiers :=
  Tree.declaresIdentifiers_iff.mpr ⟨nofun, Parse.allDeclareIdentifiers_file _ _ _ (Token.wordy_ofText source)⟩

end TypeAtlas.Syntax
