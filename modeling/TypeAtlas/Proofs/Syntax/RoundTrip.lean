import TypeAtlas.Proofs.Signature.Acceptance
import TypeAtlas.Proofs.Syntax.Encoding

/-! The encoder against the reader of signatures. The code of a written type derives from the grammar of
signatures with the same nesting, so the reader accepts what the encoder answers with, and finds the
dimensions, arguments and readable form of what was written. -/

namespace TypeAtlas.Syntax

open Signature

/-! ### The derivation of a code -/

def snoc (y : Name) : DottedName → DottedName
  | .one x => .more x (.one y)
  | .more x rest => .more x (snoc y rest)

theorem text_snoc (y : Name) (x : DottedName) : (snoc y x).text = x.text ++ '.' :: y.chars := by
  induction x with
  | one x => rfl
  | more x rest ih => simp [snoc, DottedName.text, ih]

mutual

/-- The derivation of the type's code with `n` more dimensions. -/
def WrittenType.tree : WrittenType → (n : Nat) → TypeTree
  | .primitive p, n => .primitive n p
  | .reference r, n => .reference n .written r.body
  | .array e k, n => e.tree (n + k)
  | .annotated e, n => e.tree n

def WrittenReference.body : WrittenReference → BodyTree
  | .raw h => h.body .plain
  | .generic h as => h.body fun x => .generic x as.trees

/-- What a head begins: its segments up to the last name, which `last` goes on from. -/
def WrittenHead.body : WrittenHead → (last : DottedName → BodyTree) → BodyTree
  | .simple x, last => last (.one x)
  | .member outer x, last => outer.member x last

/-- A name ends a segment only where arguments follow it. -/
def WrittenReference.member : WrittenReference → Name → (last : DottedName → BodyTree) → BodyTree
  | .raw h, x, last => h.body fun y => last (snoc x y)
  | .generic h as, x, last => h.body fun y => .member y as.trees (last (.one x))

def WrittenArguments.trees : WrittenArguments → ArgumentTrees
  | .one a => .one a.tree
  | .more a as => .more a.tree as.trees

def WrittenArgument.tree : WrittenArgument → ArgumentTree
  | .unbounded => .unbounded
  | .exactly e => .exactly (e.tree 0)
  | .upper e => .upper (e.tree 0)
  | .lower e => .lower (e.tree 0)

end

def DeclaredType.derivation : DeclaredType → Derivation
  | .void => .void
  | .type t => .type (t.tree 0)

theorem WrittenType.dims_tree (ty : WrittenType) (n : Nat) : (ty.tree n).dims = n + ty.dims := by
  induction ty using WrittenType.dims.induct generalizing n with
  | case1 p => rfl
  | case2 r => rfl
  | case3 e k ih => rw [tree, ih, dims, Nat.add_assoc]
  | case4 e ih => rw [tree, ih, dims]

theorem WrittenArguments.toList_trees (as : WrittenArguments) :
    as.trees.toList = as.toList.map WrittenArgument.tree := by
  induction as using WrittenArguments.toList.induct with
  | case1 a => rfl
  | case2 a as ih => rw [trees, ArgumentTrees.toList, ih, toList, List.map_cons]

structure Body (b : BodyTree) (text shown : List Char) (nesting : Nat) (arguments : List ArgumentTree) : Prop where
  text : b.text = text
  shown : b.shown = shown
  nesting : b.nesting = nesting
  arguments : b.lastArguments = arguments

theorem brackets_add (m n : Nat) : Text.brackets (m + n) = Text.brackets n ++ Text.brackets m := by
  induction n with
  | zero => rfl
  | succ n ih => exact congrArg ('[' :: ']' :: ·) ih

mutual

theorem WrittenType.tree_reads : (ty : WrittenType) → (n : Nat) →
    (ty.tree n).text = List.replicate n '[' ++ ty.code ∧ (ty.tree n).shown = ty.shown ++ Text.brackets n ∧
      (ty.tree n).nesting = ty.nesting
  | .primitive p, n => ⟨rfl, rfl, rfl⟩
  | .reference r, n => by
    have h := r.body_reads
    refine ⟨?_, ?_, h.nesting⟩
    · rw [WrittenType.tree, TypeTree.text, h.text]
      rfl
    · rw [WrittenType.tree, TypeTree.shown, h.shown]
      rfl
  | .array e k, n => by
    obtain ⟨text, shown, nesting⟩ := e.tree_reads (n + k)
    refine ⟨?_, ?_, nesting⟩
    · rw [WrittenType.tree, text, WrittenType.code, ← List.replicate_append_replicate, List.append_assoc]
    · rw [WrittenType.tree, shown, WrittenType.shown, brackets_add, List.append_assoc]
  | .annotated e, n => e.tree_reads n

theorem WrittenReference.body_reads : (r : WrittenReference) →
    Body r.body (r.code ++ [';']) r.shown r.nesting (r.arguments.map WrittenArgument.tree)
  | .raw h => by
    have hb : Body (h.body .plain) (h.code ++ [';']) (h.shown ++ []) (max h.nesting 0) [] :=
      h.body_reads fun y => ⟨rfl, (List.append_nil _).symm, rfl, rfl⟩
    rw [List.append_nil, Nat.max_zero] at hb
    exact hb
  | .generic h as => by
    obtain ⟨text, shown, nesting⟩ := as.trees_reads
    have hb : Body (h.body fun y => .generic y as.trees) (h.code ++ ('<' :: as.code ++ ['>', ';']))
        (h.shown ++ ('<' :: as.shown ++ ['>'])) (max h.nesting as.nesting) (as.toList.map WrittenArgument.tree) :=
      h.body_reads fun y =>
        ⟨by simp [BodyTree.text, text], by simp [BodyTree.shown, shown], nesting, as.toList_trees⟩
    refine ⟨hb.text.trans ?_, hb.shown.trans ?_, hb.nesting, hb.arguments⟩
    · simp [WrittenReference.code]
    · simp [WrittenReference.shown]

theorem WrittenHead.body_reads : (h : WrittenHead) → {last : DottedName → BodyTree} → {text shown : List Char} →
    {nesting : Nat} → {arguments : List ArgumentTree} →
    (∀ y, Body (last y) (y.text ++ text) (y.text ++ shown) nesting arguments) →
    Body (h.body last) (h.code ++ text) (h.shown ++ shown) (max h.nesting nesting) arguments
  | .simple x, last, text, shown, nesting, arguments, hl => by
    rw [WrittenHead.nesting, Nat.zero_max]
    exact hl (.one x)
  | .member outer x, last, text, shown, nesting, arguments, hl => outer.member_reads x hl

theorem WrittenReference.member_reads : (r : WrittenReference) → (x : Name) → {last : DottedName → BodyTree} →
    {text shown : List Char} → {nesting : Nat} → {arguments : List ArgumentTree} →
    (∀ y, Body (last y) (y.text ++ text) (y.text ++ shown) nesting arguments) →
    Body (r.member x last) (r.code ++ '.' :: x.chars ++ text) (r.shown ++ '.' :: x.chars ++ shown)
      (max r.nesting nesting) arguments
  | .raw h, x, last, text, shown, nesting, arguments, hl => by
    have hb : Body (h.body fun y => last (snoc x y)) (h.code ++ ('.' :: x.chars ++ text))
        (h.shown ++ ('.' :: x.chars ++ shown)) (max h.nesting nesting) arguments := h.body_reads fun y => by
      have hy := hl (snoc x y)
      rw [text_snoc] at hy
      simpa using hy
    rw [← List.append_assoc, ← List.append_assoc] at hb
    exact hb
  | .generic h as, x, last, text, shown, nesting, arguments, hl => by
    obtain ⟨texts, showns, nestings⟩ := as.trees_reads
    have hx := hl (.one x)
    have hb : Body (h.body fun y => .member y as.trees (last (.one x)))
        (h.code ++ ('<' :: as.code ++ '>' :: '.' :: x.chars ++ text))
        (h.shown ++ ('<' :: as.shown ++ '>' :: '.' :: x.chars ++ shown))
        (max h.nesting (max as.nesting nesting)) arguments :=
      h.body_reads fun y =>
        ⟨by simp [BodyTree.text, texts, hx.text, DottedName.text],
          by simp [BodyTree.shown, showns, hx.shown, DottedName.text],
          by rw [BodyTree.nesting, nestings, hx.nesting], hx.arguments⟩
    refine ⟨hb.text.trans ?_, hb.shown.trans ?_, hb.nesting.trans ?_, hb.arguments⟩
    · simp [WrittenReference.code]
    · simp [WrittenReference.shown]
    · rw [WrittenReference.nesting, Nat.max_assoc]

theorem WrittenArguments.trees_reads : (as : WrittenArguments) →
    as.trees.text = as.code ∧ as.trees.shown = as.shown ∧ as.trees.nesting = as.nesting
  | .one a => a.tree_reads
  | .more a as => by
    obtain ⟨text, shown, nesting⟩ := a.tree_reads
    obtain ⟨texts, showns, nestings⟩ := as.trees_reads
    refine ⟨?_, ?_, ?_⟩
    · rw [WrittenArguments.trees, ArgumentTrees.text, text, texts, WrittenArguments.code]
    · rw [WrittenArguments.trees, ArgumentTrees.shown, shown, showns, WrittenArguments.shown]
    · rw [WrittenArguments.trees, ArgumentTrees.nesting, nesting, nestings, WrittenArguments.nesting]

theorem WrittenArgument.tree_reads : (a : WrittenArgument) →
    a.tree.text = a.code ∧ a.tree.shown = a.shown ∧ a.tree.nesting = a.nesting
  | .unbounded => ⟨rfl, rfl, rfl⟩
  | .exactly e => by
    obtain ⟨text, shown, nesting⟩ := e.tree_reads 0
    exact ⟨text, shown.trans (List.append_nil _), congrArg (· + 1) nesting⟩
  | .upper e => by
    obtain ⟨text, shown, nesting⟩ := e.tree_reads 0
    rw [Text.brackets, List.append_nil] at shown
    refine ⟨congrArg ('+' :: ·) text, ?_, congrArg (· + 1) nesting⟩
    rw [WrittenArgument.tree, ArgumentTree.shown, shown, WrittenArgument.shown]
  | .lower e => by
    obtain ⟨text, shown, nesting⟩ := e.tree_reads 0
    rw [Text.brackets, List.append_nil] at shown
    refine ⟨congrArg ('-' :: ·) text, ?_, congrArg (· + 1) nesting⟩
    rw [WrittenArgument.tree, ArgumentTree.shown, shown, WrittenArgument.shown]

end

theorem WrittenType.arguments_tree (ty : WrittenType) (n : Nat) :
    (Derivation.type (ty.tree n)).lastArguments = ty.arguments.map WrittenArgument.tree := by
  induction ty using WrittenType.dims.induct generalizing n with
  | case1 p => rfl
  | case2 r => exact r.body_reads.arguments
  | case3 e k ih => exact ih (n + k)
  | case4 e ih => exact ih n

namespace DeclaredType

variable (ty : DeclaredType)

theorem text_derivation : ty.derivation.text = ty.code := by
  cases ty with
  | void => rfl
  | type t => exact (t.tree_reads 0).1

theorem shown_derivation : ty.derivation.shown = ty.shown := by
  cases ty with
  | void => rfl
  | type t => exact (t.tree_reads 0).2.1.trans (List.append_nil _)

theorem nesting_derivation : ty.derivation.nesting = ty.nesting := by
  cases ty with
  | void => rfl
  | type t => exact (t.tree_reads 0).2.2

theorem dims_derivation : ty.derivation.signature.dims = ty.dims := by
  cases ty with
  | void => rfl
  | type t => exact (t.tree 0).dims_sig.trans ((t.dims_tree 0).trans (Nat.zero_add _))

theorem arguments_derivation :
    ty.derivation.lastArguments.map ArgumentTree.text = ty.arguments.map WrittenArgument.code := by
  have tree : ty.derivation.lastArguments = ty.arguments.map WrittenArgument.tree := by
    cases ty with
    | void => rfl
    | type t => exact t.arguments_tree 0
  rw [tree, List.map_map]
  exact List.map_congr_left fun a _ => a.tree_reads.1

end DeclaredType

/-- A written type has a signature just in case no type stands inside more than `maxNesting` argument
lists. The signature is then the type's code, the same for every tree that spells the type, and what
is read from it is what was written. -/
theorem signature_round_trip {ty : DeclaredType} {t : Tree} (h : ty.SpelledBy t) :
    ((∃ s, t.signature = .ok s) ↔ ty.nesting ≤ maxNesting) ∧
      ∀ s, t.signature = .ok s → s = String.ofList ty.code ∧ ∃ sig, parse s = .ok sig ∧
        sig.dims = ty.dims ∧ sig.simpleName = String.ofList ty.shown ∧
        sig.arguments.map Argument.encode = ty.arguments.map WrittenArgument.code := by
  refine ⟨?_, ?_⟩
  · refine ⟨?_, ?_⟩
    · rintro ⟨s, hs⟩
      exact ((ty.signature_eq_ok h s).mp hs).1
    · intro hn
      exact ⟨_, (ty.signature_eq_ok h _).mpr ⟨hn, rfl⟩⟩
  · intro s hs
    obtain ⟨hn, rfl⟩ := (ty.signature_eq_ok h s).mp hs
    have text : ty.derivation.text = (String.ofList ty.code).toList := by
      rw [ty.text_derivation, String.toList_ofList]
    have nesting : ty.derivation.nesting ≤ maxNesting := by rwa [ty.nesting_derivation]
    have reads := Derivation.describes text nesting
    refine ⟨rfl, ty.derivation.signature, parse_eq_ok.mpr ⟨_, text, nesting, rfl⟩, ty.dims_derivation, ?_, ?_⟩
    · rw [reads.simpleName, ty.shown_derivation]
    · rw [reads.arguments, ty.arguments_derivation]

def node (kind : NodeKind) (text : String) (children : List Tree) : Tree := ⟨kind, true, none, text, 1, children⟩

def dimension : Tree :=
  ⟨.other "dimensions", true, some "dimensions", "[]", 1, [⟨.openBracket, false, none, "[", 1, []⟩]⟩

def lowerArgument : Tree :=
  node .wildcard "? super int[]" [node .superKeyword "super" [],
    node .arrayType "int[]" [⟨.integralType, true, some "element", "int", 1, []⟩, dimension]]

def outerType : Tree :=
  node .genericType "A<?>" [node .typeIdentifier "A" [], node .typeArguments "<?>" [node .wildcard "?" []]]

/-- `@N A<?>.B</**/? super int[]>[]`, an annotated array with a comment before its argument. -/
def annotatedArray : Tree :=
  node .annotatedType "@N A<?>.B</**/? super int[]>[]" [node .markerAnnotationUse "@N" [],
    node .arrayType "A<?>.B</**/? super int[]>[]" [
      ⟨.genericType, true, some "element", "A<?>.B</**/? super int[]>", 1, [
        node .scopedTypeIdentifier "A<?>.B" [outerType, node .typeIdentifier "B" []],
        node .typeArguments "</**/? super int[]>" [node .blockComment "/**/" [], lowerArgument]]⟩,
      dimension]]

def writtenOuter : WrittenReference := .generic (.simple (.single 'A' (by decide))) (.one .unbounded)

def writtenArgument : WrittenArgument := .lower (.array (.primitive .int) 1)

def writtenArray : WrittenType :=
  .annotated (.array (.reference (.generic (.member writtenOuter (.single 'B' (by decide))) (.one writtenArgument))) 1)

theorem signature_annotatedArray :
    (DeclaredType.type writtenArray).SpelledBy annotatedArray ∧
      annotatedArray.signature = .ok "[QA<*>.B<-[I>;" ∧ ∃ sig, parse "[QA<*>.B<-[I>;" = .ok sig ∧ sig.dims = 1 ∧
        sig.simpleName = "A<?>.B<? super int[]>[]" ∧ sig.arguments.map Argument.encode = ["-[I".toList] := by
  have outer : writtenOuter.SpelledBy outerType :=
    ⟨rfl, _, _, rfl, ⟨rfl, by simp [node, Name.single]⟩, rfl, _, rfl, rfl, rfl⟩
  have argument : writtenArgument.SpelledBy lowerArgument :=
    ⟨rfl, rfl, _, rfl, rfl, ⟨_, rfl, rfl, rfl⟩, _, rfl, rfl⟩
  have spelled : (DeclaredType.type writtenArray).SpelledBy annotatedArray :=
    ⟨rfl, _, rfl, rfl, ⟨_, rfl, rfl, _, _, rfl, ⟨rfl, _, _, rfl, outer, rfl, by simp [node, Name.single]⟩, rfl, _, rfl,
      argument⟩, _, rfl, rfl⟩
  obtain ⟨⟨-, fits⟩, reads⟩ := signature_round_trip spelled
  obtain ⟨s, hs⟩ := fits (by decide)
  obtain ⟨rfl, sig, hp, dims, shown, arguments⟩ := reads s hs
  have code : String.ofList (DeclaredType.type writtenArray).code = "[QA<*>.B<-[I>;" := by
    rw [← String.toList_inj]
    decide
  rw [code] at hs hp
  refine ⟨spelled, hs, sig, hp, dims, ?_, arguments⟩
  rw [shown, ← String.toList_inj]
  decide

end TypeAtlas.Syntax
