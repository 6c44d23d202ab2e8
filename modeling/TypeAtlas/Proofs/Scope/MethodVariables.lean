import TypeAtlas.Proofs.Extraction.Comparison
import TypeAtlas.Proofs.Extraction.Variables
import TypeAtlas.Proofs.Scope.Agreement
import TypeAtlas.Proofs.Syntax.Bodies

/-! Type parameters of methods. They are in sight in their method only, where they shadow whatever else a name could
mean; a name that does not begin with one of them means the same as outside, inherited members included, since these
are looked up in the scopes of types. -/

namespace TypeAtlas

open Extraction Resolution Syntax

/-! ### Names in the scope of a method -/

namespace LexicalScope

variable {s : LexicalScope} {vs : List String} {ix : Index} {inherited : Inheritance} {name w : String}

theorem resolveSimple_withTypeVariables (h : name ∉ vs) :
    (s.withTypeVariables vs).resolveSimple ix inherited name = s.resolveSimple ix inherited name := by
  have same : name ∈ s.typeVariables ++ vs ↔ name ∈ s.typeVariables := by simp [h]
  unfold resolveSimple withTypeVariables
  simp only [same]

theorem resolveSimple_of_variable (h : name ∈ vs) :
    (s.withTypeVariables vs).resolveSimple ix inherited name = .ok none :=
  if_pos (List.mem_append_right _ h)

/-- A name that does not begin with one of the variables means the same without them. -/
theorem resolveWith_withTypeVariables (h : Text.headSegment (Text.erase w) ∉ vs) :
    (s.withTypeVariables vs).resolveWith ix inherited w = s.resolveWith ix inherited w := by
  unfold resolveWith resolveErased
  dsimp only
  cases after : Text.afterHead? (Text.erase w) with
  | none =>
    rw [Text.headSegment_of_afterHead? after] at h
    rw [resolveSimple_withTypeVariables h]
  | some rest => rw [resolveSimple_withTypeVariables h]

/-- A name that begins with one of the variables is looked up in no supertype, so that it has an answer. -/
theorem exists_resolveWith_of_variable (h : Text.headSegment (Text.erase w) ∈ vs) :
    ∃ answer, (s.withTypeVariables vs).resolveWith ix inherited w = .ok answer := by
  unfold resolveWith resolveErased
  dsimp only
  split
  · exact ⟨none, rfl⟩
  · split
    · rename_i after
      rw [Text.headSegment_of_afterHead? after] at h
      exact ⟨none, resolveSimple_of_variable h⟩
    · rw [resolveSimple_of_variable h]
      exact ⟨_, rfl⟩

end LexicalScope

/-! ### Signatures in the scope of a method -/

/-- A context inside of another one, in which some type variables shadow what names mean outside. -/
structure Shadows (vs : List String) (outside inside : Context) : Prop where
  /-- A name that does not begin with a variable has the same answer. -/
  elsewhere : ∀ w, Text.headSegment (Text.erase w) ∉ vs → inside w = outside w
  /-- Resolutions of a text have types of the same shape, whose names differ only where the written ones begin with a
  variable; or they fail alike, or the one outside fails of a name that begins with a variable. -/
  beside : ∀ limit text s s₁,
    (∃ sig t s' t' s₁', Signature.parse text = .ok sig ∧ Gives (resolve limit outside text) s t s' ∧
      Gives (resolve limit inside text) s₁ t' s₁' ∧ t.skeleton = t'.skeleton ∧
      t.names = sig.written.map (nameIn outside) ∧ t'.names = sig.written.map (nameIn inside) ∧
      ∀ w ∈ sig.written, Text.headSegment (Text.erase w) ∉ vs → nameIn inside w = nameIn outside w) ∨
    ∃ e s', Fails (resolve limit outside text) s e s' ∧
      ((∃ sig, Signature.parse text = .ok sig ∧
          ∃ w ∈ sig.written, Text.headSegment (Text.erase w) ∈ vs ∧ outside w = .error e) ∨
        ∃ s₁', Fails (resolve limit inside text) s₁ e s₁')
  /-- Wherever a variable is written inside, with dimensions, type arguments or as a bound, the name is the variable. -/
  shadowing : ∀ limit text s t s', Gives (resolve limit inside text) s t s' → ∃ sig,
    Signature.parse text = .ok sig ∧ t.names = sig.written.map (nameIn inside) ∧
    ∀ w ∈ sig.written, Text.erase w ∈ vs → '.' ∉ (Text.erase w).toList → nameIn inside w = Text.erase w

theorem nameIn_congr {ctx ctx' : Context} {w : String} (h : ctx w = ctx' w) : nameIn ctx w = nameIn ctx' w := by
  rw [nameIn, nameIn, h]

theorem shadows_withTypeVariables (ls : LexicalScope) (vs : List String) (ix : Index) (inherits : Bool) :
    Shadows vs ((Scope.lexical ls).resolve ix · inherits)
      ((Scope.lexical (ls.withTypeVariables vs)).resolve ix · inherits) where
  elsewhere _ h := LexicalScope.resolveWith_withTypeVariables h
  beside limit text s s₁ := by
    let outside : Context := ((Scope.lexical ls).resolve ix · inherits)
    let inside : Context := ((Scope.lexical (ls.withTypeVariables vs)).resolve ix · inherits)
    let begins (w : String) : Prop := Text.headSegment (Text.erase w) ∈ vs
    have elsewhere (w : String) (h : ¬ begins w) : inside w = outside w := LexicalScope.resolveWith_withTypeVariables h
    have comparable (sig : Signature) (parsed : Signature.parse text = .ok sig) (w : String) (hw : w ∈ sig.written) :
        Comparable (fun e => ∃ sig, Signature.parse text = .ok sig ∧ ∃ w ∈ sig.written, begins w ∧ outside w = .error e)
          outside inside w := by
      by_cases h : begins w
      · exact .inr ⟨LexicalScope.exists_resolveWith_of_variable h, fun e he => ⟨sig, parsed, w, hw, h, he⟩⟩
      · exact .inl (elsewhere w h).symm
    rcases beside_resolve comparable s s₁ with ⟨t, s', t', s₁', ht, ht', -, -, shape⟩ | ⟨e, s', ht, ht'⟩
    · obtain ⟨sig, parsed, names⟩ := names_eq_of_gives ht
      obtain ⟨sig', parsed', names'⟩ := names_eq_of_gives ht'
      cases parsed.symm.trans parsed'
      exact .inl ⟨sig, t, s', t', s₁', parsed, ht, ht', shape, names, names', fun w _ h => nameIn_congr (elsewhere w h)⟩
    · exact .inr ⟨e, s', ht, ht'⟩
  shadowing limit text s t s' h := by
    obtain ⟨sig, parsed, names⟩ := names_eq_of_gives h
    refine ⟨sig, parsed, names, fun w hw declared plain => ?_⟩
    have simple := Text.afterHead?_of_dot_not_mem plain
    have unresolved : (Scope.lexical (ls.withTypeVariables vs)).resolve ix w inherits = .ok none :=
      Mention.resolveWith_of_variable (List.mem_append_right _ declared) simple
    rw [nameIn, unresolved, Signature.rawName_of_written parsed hw simple]

/-! ### The methods of a file -/

namespace Syntax

variable {path : Option String} {unit : CompilationUnit} {o : Owner} {m m' : Members} {t : Tree} {ts : List Tree}

def MethodScoped (ls : LexicalScope) (m : MethodDecl) : Prop :=
  m.scope = some (.lexical (ls.withTypeVariables (m.typeParameters.map (·.name))))

theorem methodScoped_of_completeMethod {r r' : MethodDecl} (h : Tree.completeMethod o r t = .ok r') :
    MethodScoped o.scope r' := by
  unfold Tree.completeMethod at h
  obtain ⟨typeParameters, -, h⟩ := bind_eq_ok.mp h
  obtain ⟨parameters, -, h⟩ := bind_eq_ok.mp h
  obtain ⟨throws, -, h⟩ := bind_eq_ok.mp h
  cases h
  rfl

theorem Collects.methodScoped (h : Collects o m ts m') :
    ∀ r ∈ m'.methods, r ∈ m.methods ∨ MethodScoped o.scope r := by
  induction h with
  | done o m => exact fun _ hr => .inl hr
  | plain _ _ method_eq _ ih =>
    intro r hr
    rcases ih r hr with before | inScope
    · rcases List.mem_append.mp before with before | new
      · exact .inl before
      · obtain ⟨r₀, completed⟩ := Tree.exists_completeMethod method_eq (Option.mem_toList.mp new)
        exact .inr (methodScoped_of_completeMethod completed)
    · exact .inr inScope
  | constants _ _ _ _ inside rest => exact fun r hr => (rest r hr).elim (inside r) .inr
  | type _ _ _ _ _ rest => exact rest

/-- The scope of a declaration has the type variables of the types around it, and those of its methods add their own. -/
theorem TypeNode.ReadAt.scopes {n : TypeNode} {d : Declaration} (h : n.ReadAt path unit d) :
    ∃ ls, d.scope = some (.lexical ls) ∧ ls.unit = unit ∧ ls.typeVariables = variablesInSight n.types ∧
      ∀ r ∈ d.methods, MethodScoped ls r := by
  obtain ⟨-, unit_eq, variables_eq, begins, body⟩ := h
  have sees := begins.variablesInSight variables_eq
  have methods := body.methodScoped
  obtain ⟨-, -, head⟩ := begins
  exact ⟨_, (headOf_of_declarationHead head).scope_eq, unit_eq, sees, fun r hr =>
    (methods r hr).resolve_left List.not_mem_nil⟩

end Syntax

def Declaration.withoutMethods (d : Declaration) : Declaration := { d with methods := [] }

/-- Indexes that know the same types, whatever methods these have. -/
def Index.SameButMethods (ix ix' : Index) : Prop :=
  ∀ name, (ix name).map (·.withoutMethods) = (ix' name).map (·.withoutMethods)

theorem Index.SameButMethods.agree {ix ix' : Index} (h : ix.SameButMethods ix') : ix.Agree ix' := by
  intro name
  have same := congrArg (Option.map Declaration.lineage) (h name)
  rwa [Option.map_map, Option.map_map] at same

/-- What names mean in a declaration and in one of its methods does not depend on other methods, here and elsewhere. -/
theorem contexts_eq {d d' : Declaration} (same : d'.withoutMethods = d.withoutMethods) {ix ix' : Index}
    (agree : ix'.SameButMethods ix) (name name' : String) (types types' : List Declaration) (m : MethodDecl) :
    (Provider.ofIndex name' types' ix').context d' = (Provider.ofIndex name types ix).context d ∧
      (Provider.ofIndex name' types' ix').methodContext d' m = (Provider.ofIndex name types ix).methodContext d m := by
  have scope : d'.scope = d.scope := by simpa [Declaration.withoutMethods] using congrArg Declaration.scope same
  have contexts (scope : Option Scope) : (Provider.ofIndex name' types' ix').contextOf scope =
      (Provider.ofIndex name types ix).contextOf scope := by
    cases scope with
    | none => rfl
    | some sc => exact funext fun w => Scope.resolve_congr agree.agree sc w true
  rw [Provider.context, Provider.context, Provider.methodContext, Provider.methodContext, scope]
  exact ⟨contexts _, contexts _⟩

/-- Type parameters shadow in their method only. A declaration has in sight what the type nodes around it declare, and
a method its own type parameters besides; in the method these shadow what the declaration sees, and nothing else is
different there. What names mean in the declaration or in any one of its methods stays the same whatever other methods
there are, with whatever type parameters, in the declaration itself and in those of the index. -/
theorem read_methodVariables {f : ParsedFile} {path : Option String} {ds : List Declaration} {s s' : List Warning}
    (h : Gives (f.read path) s ds s') :
    ∃ ns : List TypeNode, ns.Pairwise (fun m n => m.position < n.position) ∧ (∀ n, n ∈ ns ↔ f.Declares n) ∧
      List.Forall₂ (fun n d => ∃ ls, d.scope = some (.lexical ls) ∧ ls.unit = unitOf f.root ∧
        ls.typeVariables = variablesInSight n.types ∧ ∀ m ∈ d.methods,
          m.scope = some (.lexical (ls.withTypeVariables (m.typeParameters.map (·.name)))) ∧
          ∀ (name : String) (types : List Declaration) (ix : Index),
            Shadows (m.typeParameters.map (·.name)) ((Provider.ofIndex name types ix).context d)
              ((Provider.ofIndex name types ix).methodContext d m) ∧
            ∀ (name' : String) (types' : List Declaration) (ix' : Index) (d' : Declaration), ix'.SameButMethods ix →
              d'.withoutMethods = d.withoutMethods →
              (Provider.ofIndex name' types' ix').context d' = (Provider.ofIndex name types ix).context d ∧
              (Provider.ofIndex name' types' ix').methodContext d' m =
                (Provider.ofIndex name types ix).methodContext d m) ns ds := by
  refine ⟨topTypes f.root.children, ascending_topTypes _, fun _ => f.mem_types, (readAt_of_read h).imp ?_⟩
  intro n d read
  obtain ⟨ls, scope, unit, sees, methods⟩ := read.scopes
  refine ⟨ls, scope, unit, sees, fun m hm => ⟨methods m hm, fun name types ix => ⟨?_, ?_⟩⟩⟩
  · rw [Provider.context, Provider.methodContext, methods m hm, scope]
    exact shadows_withTypeVariables ls _ ix true
  · exact fun name' types' ix' d' agree same => contexts_eq same agree name name' types types' m

/-- `package p; class A { class T {} <T> T get(); }` -/
def genericMethodFile : ParsedFile where
  root :=
    let method : Tree := ⟨.methodDeclaration, true, none, "", 1, [
      ⟨.other "type_parameters", true, some "type_parameters", "", 1, [
        ⟨.typeParameter, true, none, "T", 1, [⟨.typeIdentifier, true, none, "T", 1, []⟩]⟩]⟩,
      ⟨.typeIdentifier, true, some "type", "T", 1, []⟩, ⟨.identifier, true, some "name", "get", 1, []⟩]⟩
    ⟨.other "program", true, none, "", 1, [
      ⟨.packageDeclaration, true, none, "", 1, [⟨.identifier, true, none, "p", 1, []⟩]⟩,
      plainType .classDeclaration "A" [] [plainType .classDeclaration "T" [] [], method]]⟩

def genericMethod : MethodDecl where
  name := "get"
  returns := "QT;"
  typeParameters := [⟨"T", []⟩]
  scope := some (.lexical ⟨{ package := "p" }, ["p.A"], ["T"]⟩)

def genericMethodClass : Declaration where
  name := "p.A"
  methods := [genericMethod]
  scope := some (.lexical ⟨{ package := "p" }, ["p.A"], []⟩)

def genericMethodTypes : List Declaration :=
  [genericMethodClass,
    { name := "p.A.T", outer := some "p.A", scope := some (.lexical ⟨{ package := "p" }, ["p.A.T", "p.A"], []⟩) }]

/-- The type parameter `T` hides the member type `T` in the method, at any depth of a type. -/
theorem read_methodVariables_generic : Gives (genericMethodFile.read none) [] genericMethodTypes [] ∧
    let p := Provider.ofIndex "java" genericMethodTypes (Index.ofList genericMethodTypes)
    Shadows ["T"] (p.context genericMethodClass) (p.methodContext genericMethodClass genericMethod) ∧
      p.context genericMethodClass "T" = .ok (some "p.A.T") ∧
      ∀ limit t s s', Gives (resolve limit (p.methodContext genericMethodClass genericMethod) "[QT<+QT;>;") s t s' →
        t.names = ["T", "T"] := by
  have h : Gives (genericMethodFile.read none) [] genericMethodTypes [] := by cbv
  obtain ⟨ns, -, -, reads⟩ := read_methodVariables h
  obtain ⟨n, rest, ⟨ls, -, -, -, methods⟩, -, -⟩ := List.forall₂_cons_right_iff.mp reads
  obtain ⟨-, contexts⟩ := methods genericMethod List.mem_cons_self
  have shadows : Shadows ["T"] _ _ := (contexts "java" genericMethodTypes (Index.ofList genericMethodTypes)).1
  refine ⟨h, shadows, by cbv, fun limit t s s' run => ?_⟩
  obtain ⟨sig, parsed, names, own⟩ := shadows.shadowing limit _ s t s' run
  have written : (Signature.parse "[QT<+QT;>;").toOption.map Signature.written = some ["T<? extends T>", "T"] := by cbv
  rw [parsed] at written
  replace written := Option.some.inj written
  have erased : Text.erase "T<? extends T>" = "T" ∧ Text.erase "T" = "T" := by cbv
  have outer := own "T<? extends T>" (by simp [written]) (by simp [erased]) (by simp [erased])
  have inner := own "T" (by simp [written]) (by simp [erased]) (by simp [erased])
  rw [names, written, List.map_cons, List.map_cons, outer, inner, erased.1, erased.2, List.map_nil]

end TypeAtlas
