import Mathlib
import TypeAtlas.Proofs.Extraction.References
import TypeAtlas.Proofs.Signature.Bounds

/-! What a signature resolves to and which limit it takes, in a context that has an answer to every name.
The data type is given by recursion on the tree of the signature, the limit by its nesting. The two are
proved together, since each operation of a resolution either has its value or fails of the limit. -/

namespace TypeAtlas

open Extraction

namespace Resolution

variable {limit : Int} {ctx : Context}

/-- The name under which a written name is known: the answer of the context unless that is empty, else the
raw name. -/
def nameIn (ctx : Context) (written : String) : String :=
  match ctx written with
  | .ok (some name) => if name = "" then rawName written else name
  | _ => rawName written

theorem fullName_eq {written : String} (h : ∃ answer, ctx written = .ok answer) :
    fullName ctx written = .ok (nameIn ctx written) := by
  obtain ⟨_ | name, h⟩ := h
  · simp [fullName, nameIn, h, bind, Except.bind]
  · simp [fullName, nameIn, h, bind, Except.bind]

theorem nameIn_of_fullName {written name : String} (h : fullName ctx written = .ok name) : nameIn ctx written = name := by
  obtain ⟨answer, found, stands⟩ := bind_eq_ok.mp h
  rw [nameIn, found]
  cases answer with
  | none => exact Except.ok.inj stands
  | some name => exact Except.ok.inj stands

/-! ### The data type of a signature -/

mutual

/-- The data type that a type stands for, whatever the limit. -/
def typeOf (ctx : Context) : Signature.TypeSig → DataType
  | .primitive dims p => ⟨nameIn ctx (Signature.type (.primitive dims p)).element.simpleName, dims, [], none⟩
  | .typeVariable dims x => ⟨nameIn ctx (Signature.type (.typeVariable dims x)).element.simpleName, dims, [], none⟩
  | .reference dims origin path =>
    ⟨nameIn ctx (Signature.type (.reference dims origin path)).element.simpleName, dims, pathTypes ctx path, none⟩

def pathTypes (ctx : Context) : Signature.ClassPath → List DataType
  | .last _ arguments => argumentTypes ctx arguments
  | .outer _ _ inner => pathTypes ctx inner

def argumentTypes (ctx : Context) : List Signature.Argument → List DataType
  | [] => []
  | a :: as => argumentType ctx a :: argumentTypes ctx as

def argumentType (ctx : Context) : Signature.Argument → DataType
  | .unbounded => DataType.unboundedArgument
  | .exactly t => typeOf ctx t
  | .upper t => { typeOf ctx t with wildcard := some .upper }
  | .lower t => { typeOf ctx t with wildcard := some .lower }

end

def signatureType (ctx : Context) : Signature → DataType
  | .void => ⟨nameIn ctx Signature.void.element.simpleName, 0, [], none⟩
  | .type t => typeOf ctx t

theorem argumentTypes_eq (ctx : Context) (as : List Signature.Argument) :
    argumentTypes ctx as = as.map (argumentType ctx) := by
  induction as with
  | nil => rfl
  | cons a as ih => rw [argumentTypes, ih, List.map_cons]

theorem pathTypes_eq (ctx : Context) (path : Signature.ClassPath) :
    pathTypes ctx path = path.arguments.map (argumentType ctx) := by
  cases path with
  | last _ as => exact argumentTypes_eq ctx as
  | outer _ _ inner => exact pathTypes_eq ctx inner
termination_by structural path

theorem argumentType_eq (ctx : Context) {a : Signature.Argument} {t : Signature.TypeSig} (h : a.bound = some t) :
    argumentType ctx a = { typeOf ctx t with wildcard := a.wildcard } := by
  cases a with
  | unbounded => cases h
  | exactly t' =>
    cases h
    cases t <;> rfl
  | upper t' =>
    cases h
    rfl
  | lower t' =>
    cases h
    rfl

/-- The parts of the data type of a signature. -/
theorem signatureType_eq (ctx : Context) (sig : Signature) :
    signatureType ctx sig =
      ⟨nameIn ctx sig.element.simpleName, sig.dims, sig.arguments.map (argumentType ctx), none⟩ := by
  cases sig with
  | void => rfl
  | type t =>
    cases t with
    | primitive n p => rfl
    | typeVariable n x => rfl
    | reference n o path =>
      rw [signatureType, typeOf, pathTypes_eq]
      rfl

/-! ### The limit it takes -/

/-- The context has an answer to every name, be it that the name does not resolve. -/
def Answers (ctx : Context) : Prop := ∀ written, ∃ answer, ctx written = .ok answer

/-- The work has no other value than `a`, and none with a limit below `need`. Where the context has an answer to every
name it has that value with every other limit, and with one below `need` it fails of the limit. -/
structure Requires {α : Type} (ctx : Context) (limit need : Int) (x : Extraction α) (a : α) : Prop where
  value : ∀ {s b s'}, Gives x s b s' → need ≤ limit ∧ b = a
  gives : Answers ctx → need ≤ limit → ∀ s, ∃ s', Gives x s a s'
  fails : Answers ctx → limit < need → ∀ s, ∃ text s', Fails x s (.nestedArguments text limit) s'

namespace Requires

variable {α β : Type} {need more all : Int} {x : Extraction α} {a : α}

theorem of_pure (h : need ≤ limit) (a : α) : Requires ctx limit need (pure a) a where
  value given := ⟨h, (gives_pure.mp given).1.symm⟩
  gives _ _ s := ⟨s, gives_pure.mpr ⟨rfl, rfl⟩⟩
  fails _ deep := absurd h (Int.not_le.mpr deep)

theorem of_eq (hx : Requires ctx limit need x a) (h : need = all) : Requires ctx limit all x a := h ▸ hx

theorem bind {f : α → Extraction β} {b : β} (hx : Requires ctx limit need x a)
    (hf : need ≤ limit → Requires ctx limit more (f a) b) (hall : all = max need more) :
    Requires ctx limit all (x >>= f) b where
  value given := by
    obtain ⟨_, _, ha, hb⟩ := gives_bind.mp given
    obtain ⟨admitted, rfl⟩ := hx.value ha
    obtain ⟨admitted', same⟩ := (hf admitted).value hb
    exact ⟨by omega, same⟩
  gives total admitted s := by
    obtain ⟨s₁, ha⟩ := hx.gives total (by omega) s
    obtain ⟨s₂, hb⟩ := (hf (by omega)).gives total (by omega) s₁
    exact ⟨s₂, gives_bind.mpr ⟨a, s₁, ha, hb⟩⟩
  fails total deep s := by
    by_cases admitted : need ≤ limit
    · obtain ⟨s₁, ha⟩ := hx.gives total admitted s
      obtain ⟨text, s₂, hb⟩ := (hf admitted).fails total (by omega) s₁
      exact ⟨text, s₂, fails_bind.mpr (.inr ⟨a, s₁, ha, hb⟩)⟩
    · obtain ⟨text, s₁, ha⟩ := hx.fails total (by omega) s
      exact ⟨text, s₁, fails_bind.mpr (.inl ha)⟩

theorem map {f : α → β} (hx : Requires ctx limit need x a) : Requires ctx limit need (do return f (← x)) (f a) :=
  hx.bind (fun h => .of_pure h (f a)) (Int.max_self need).symm

end Requires

theorem requires_enter (depth : Nat) (sig : Signature) :
    Requires ctx limit depth (enter limit ctx depth sig) (nameIn ctx sig.element.simpleName) where
  value given := by
    obtain ⟨admitted, named, -⟩ := gives_enter.mp given
    exact ⟨admitted, (nameIn_of_fullName named).symm⟩
  gives total admitted s := ⟨_, gives_enter.mpr ⟨admitted, fullName_eq (total _), rfl⟩⟩
  fails _ deep s := by
    unfold enter
    rw [if_pos deep]
    exact ⟨sig.text, s, rfl⟩

mutual

theorem requires_resolveType (depth : Nat) :
    (t : Signature.TypeSig) → Requires ctx limit (depth + t.nest) (resolveType limit ctx depth t) (typeOf ctx t)
  | .primitive dims p => (requires_enter depth _).map
  | .typeVariable dims x => (requires_enter depth _).map
  | .reference dims origin path =>
    (requires_enter depth _).bind (fun h => (requires_resolvePath depth h path).map) (by
      rw [Signature.TypeSig.nest]
      omega)

theorem requires_resolvePath (depth : Nat) (h : depth ≤ limit) :
    (path : Signature.ClassPath) →
    Requires ctx limit (depth + path.nest) (resolvePath limit ctx depth path) (pathTypes ctx path)
  | .last _ as => requires_resolveArguments depth h as
  | .outer _ _ inner => requires_resolvePath depth h inner

theorem requires_resolveArguments (depth : Nat) (h : depth ≤ limit) :
    (as : List Signature.Argument) →
    Requires ctx limit (depth + Signature.argumentsNest as) (resolveArguments limit ctx depth as) (argumentTypes ctx as)
  | [] => .of_pure (by simpa [Signature.argumentsNest] using h) []
  | a :: as =>
    (requires_resolveArgument depth h a).bind (fun _ => (requires_resolveArguments depth h as).map) (by
      rw [Signature.argumentsNest]
      omega)

theorem requires_resolveArgument (depth : Nat) (h : depth ≤ limit) :
    (a : Signature.Argument) →
    Requires ctx limit (depth + a.nest) (resolveArgument limit ctx depth a) (argumentType ctx a)
  | .unbounded => .of_pure (by simpa [Signature.Argument.nest] using h) _
  | .exactly t => (requires_resolveType (depth + 1) t).of_eq (by
      rw [Signature.Argument.nest]
      omega)
  | .upper t => (requires_resolveType (depth + 1) t).map.of_eq (by
      rw [Signature.Argument.nest]
      omega)
  | .lower t => (requires_resolveType (depth + 1) t).map.of_eq (by
      rw [Signature.Argument.nest]
      omega)

end

/-- A signature takes a limit of at least its nesting, and none below zero. -/
theorem requires_resolve (limit : Int) (ctx : Context) {text : String} {sig : Signature}
    (h : Signature.parse text = .ok sig) :
    Requires ctx limit sig.nest (resolve limit ctx text) (signatureType ctx sig) := by
  unfold resolve
  by_cases hl : limit < 0
  · rw [if_pos hl]
    refine ⟨fun given => ?_, fun _ admitted => by omega, fun _ _ s => ⟨text, s, rfl⟩⟩
    obtain ⟨_, _, h, -⟩ := gives_bind.mp given
    exact absurd h gives_throw
  · rw [if_neg hl, signature, h]
    cases sig with
    | void => exact (requires_enter 0 .void).map
    | type t => exact (requires_resolveType 0 t).of_eq (Int.zero_add _)

theorem fails_resolve (limit : Int) (ctx : Context) {text : String} {fault : Signature.Fault}
    (h : Signature.parse text = .error fault) (s : Session) :
    ∃ e, (e = .nestedArguments text limit ∨ e = .signature text fault) ∧ Fails (resolve limit ctx text) s e s := by
  unfold resolve
  by_cases hl : limit < 0
  · rw [if_pos hl]
    exact ⟨_, .inl rfl, rfl⟩
  · rw [if_neg hl, signature, h]
    exact ⟨_, .inr rfl, rfl⟩

/-- In a context with an answer to every name, resolution fails exactly of a text that is no signature and of
one nested deeper than the limit. Otherwise the data type has the dimensions and the name of the text and, for
each type argument in order, `?` or what its bound resolves to one level below; and the session has taken up
the names of the data type. -/
theorem resolve_exact (limit : Int) (ctx : Context) (total : Answers ctx) (text : String) (s : Session) :
    ((∃ e s', Fails (resolve limit ctx text) s e s') ↔
      ∀ sig, Signature.parse text = .ok sig → limit < sig.nest) ∧
    (∀ e s', Fails (resolve limit ctx text) s e s' →
      (∃ t, e = .nestedArguments t limit) ∨ ∃ fault, Signature.parse text = .error fault ∧ e = .signature text fault) ∧
    ∀ sig, Signature.parse text = .ok sig → sig.nest ≤ limit →
      ∃ t s', Gives (resolve limit ctx text) s t s' ∧
        t.arrayCount = (text.toList.takeWhile (· = '[')).length ∧
        t.fullName = nameIn ctx sig.element.simpleName ∧
        t.wildcard = none ∧
        List.Forall₂ (fun a u => (a.bound = none → u = DataType.unboundedArgument) ∧
          ∀ b, a.bound = some b → ∃ v, u = { v with wildcard := a.wildcard } ∧
            ∀ s₁, ∃ s₂, Gives (resolve (limit - 1) ctx (Signature.type b).text) s₁ v s₂) sig.arguments t.arguments ∧
        Noted s t.references s' := by
  refine ⟨⟨?_, ?_⟩, ?_, ?_⟩
  · rintro ⟨e, s', hf⟩ sig hs
    by_contra deep
    obtain ⟨s₁, hg⟩ := (requires_resolve limit ctx hs).gives total (by omega) s
    exact hg.not_fails hf
  · intro h
    rcases hs : Signature.parse text with fault | sig
    · obtain ⟨e, -, hf⟩ := fails_resolve limit ctx hs s
      exact ⟨e, s, hf⟩
    · obtain ⟨t, s', hf⟩ := (requires_resolve limit ctx hs).fails total (h sig hs) s
      exact ⟨_, s', hf⟩
  · intro e s' hf
    rcases hs : Signature.parse text with fault | sig
    · obtain ⟨e', he, hf'⟩ := fails_resolve limit ctx hs s
      cases (hf.unique hf').1
      rcases he with rfl | rfl
      · exact .inl ⟨text, rfl⟩
      · exact .inr ⟨fault, rfl, rfl⟩
    · by_cases hn : sig.nest ≤ limit
      · obtain ⟨s₁, hg⟩ := (requires_resolve limit ctx hs).gives total hn s
        exact absurd hf hg.not_fails
      · obtain ⟨t, s₁, hf'⟩ := (requires_resolve limit ctx hs).fails total (by omega) s
        exact .inl ⟨t, (hf.unique hf').1⟩
  · intro sig hs hn
    obtain ⟨s', hg⟩ := (requires_resolve limit ctx hs).gives total hn s
    refine ⟨signatureType ctx sig, s', hg, ?_, ?_, ?_, ?_, notes_resolve limit ctx text hg⟩
    · obtain ⟨d, hd, hm, rfl⟩ := Signature.parse_eq_ok.mp hs
      rw [signatureType_eq, (Signature.Derivation.describes hd hm).dims]
    · rw [signatureType_eq]
    · rw [signatureType_eq]
    · rw [signatureType_eq, List.forall₂_map_right_iff, List.forall₂_same]
      refine fun a ha => ⟨fun hb => ?_, fun b hb => ?_⟩
      · cases a with
        | unbounded => rfl
        | exactly t => cases hb
        | upper t => cases hb
        | lower t => cases hb
      · have := Signature.nest_lt_of_bound ha hb
        refine ⟨typeOf ctx b, argumentType_eq ctx hb, fun s₁ => ?_⟩
        have admitted : (Signature.type b).nest ≤ limit - 1 := by
          rw [Signature.nest]
          omega
        exact (requires_resolve (limit - 1) ctx (Signature.parse_bound hs ha hb)).gives total admitted s₁

/-- Where `List` is the only name that resolves. -/
def listContext : Context := fun written =>
  .ok ([("List", "java.util.List")].lookup (String.ofList (written.toList.takeWhile (· != '<'))))

/-- Two levels of arguments take a limit of two. -/
theorem resolve_listOfLists :
    Answers listContext ∧
      (∃ t s', Gives (resolve 2 listContext "[QList<-QList<*QItem;>;>;") {} t s' ∧ t.arrayCount = 1 ∧
        t.fullName = "java.util.List" ∧ ∀ n, n ∈ s'.referenced ↔ n ∈ t.references) ∧
      ∃ e s', Fails (resolve 1 listContext "[QList<-QList<*QItem;>;>;") {} e s' := by
  have total : Answers listContext := fun _ => ⟨_, rfl⟩
  have parsed : (Signature.parse "[QList<-QList<*QItem;>;>;").toOption.map
      (fun sig => (sig.nest, nameIn listContext sig.element.simpleName)) = some (2, "java.util.List") := by
    cbv
  obtain ⟨sig, hs, hsig⟩ := exists_ok_of_toOption parsed
  obtain ⟨hn, hf⟩ := Prod.mk.inj hsig
  refine ⟨total, ?_, ?_⟩
  · obtain ⟨t, s', ht, dims, name, -, -, noted⟩ := (resolve_exact 2 listContext total _ {}).2.2 sig hs (by omega)
    refine ⟨t, s', ht, dims.trans (by decide), name.trans hf, fun n => ?_⟩
    rw [noted n]
    exact or_iff_right List.not_mem_nil
  · refine (resolve_exact 1 listContext total _ {}).1.mpr fun sig' hs' => ?_
    cases hs.symm.trans hs'
    omega

end Resolution
end TypeAtlas
