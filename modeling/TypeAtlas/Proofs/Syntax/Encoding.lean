import TypeAtlas.Proofs.Syntax.WrittenTypes
import TypeAtlas.Proofs.Runs

/-! Encoding the trees of written types. The encoder answers with the type's code just in case no type
stands too deep in argument lists, whatever comments and annotations the tree has. -/

namespace TypeAtlas.Syntax

open Signature (maxNesting)

variable {t u v : Tree} {depth : Nat}

/-! ### The encoder, node by node -/

theorem primitiveSignature?_name (p : Primitive) :
    primitiveSignature? p.name = some (String.singleton p.marker) := by
  cases p <;> rfl

namespace Tree

theorem encodeType_tooDeep (h : maxNesting < depth) : t.encodeType depth = .error (.tooDeep t.text) := by
  rw [encodeType, if_pos h]

theorem encodeType_primitive {p : Primitive} (h : depth ≤ maxNesting) (kind : t.kind = primitiveNode p)
    (text : t.text = p.name) : t.encodeType depth = .ok (String.singleton p.marker) := by
  rw [encodeType, if_neg (Nat.not_lt.mpr h), kind, text, primitiveSignature?_name]
  cases p <;> rfl

theorem encodeType_void (h : depth ≤ maxNesting) (kind : t.kind = .voidType) (text : t.text = "void") :
    t.encodeType depth = .ok "V" := by
  rw [encodeType, if_neg (Nat.not_lt.mpr h), kind, text]
  rfl

theorem encodeType_reference (h : depth ≤ maxNesting)
    (kind : t.kind = .typeIdentifier ∨ t.kind = .scopedTypeIdentifier ∨ t.kind = .genericType) :
    t.encodeType depth = t.encodePath depth >>= fun path => .ok ("Q" ++ path ++ ";") := by
  rw [encodeType, if_neg (Nat.not_lt.mpr h)]
  rcases kind with kind | kind | kind <;> rw [kind]

theorem encodeType_array (h : depth ≤ maxNesting) (kind : t.kind = .arrayType)
    (element : t.child? "element" = some u) :
    t.encodeType depth = u.encodeType depth >>= fun e => .ok (dimensionMarks t.dimensions ++ e) := by
  rw [encodeType, if_neg (Nat.not_lt.mpr h), kind]
  dsimp only
  split
  · rename_i hu
    rw [hu] at element
    cases element
    rfl
  · rename_i hu
    rw [hu] at element
    cases element

theorem encodeType_annotated (h : depth ≤ maxNesting) (kind : t.kind = .annotatedType) (parts : t.parts = [u]) :
    t.encodeType depth = u.encodeType depth := by
  have last : t.parts.getLast? = some u := by rw [parts]; rfl
  rw [encodeType, if_neg (Nat.not_lt.mpr h), kind]
  dsimp only
  split
  · rename_i hu
    rw [hu] at last
    cases last
    rfl
  · rename_i hu
    rw [hu] at last
    cases last

theorem encodePath_identifier (kind : t.kind = .typeIdentifier) : t.encodePath depth = .ok t.text := by
  rw [encodePath, if_pos kind]

theorem encodePath_generic (kind : t.kind = .genericType) (parts : t.parts = [u, v]) :
    t.encodePath depth =
      u.encodePath depth >>= fun path => v.encodeArguments depth >>= fun as => .ok (path ++ as) := by
  rw [encodePath, if_neg (by rw [kind]; decide)]
  split
  · rename_i hu
    rw [hu] at parts
    cases parts
    rw [if_pos kind]
  · rename_i hu
    exact absurd parts (hu u v)

theorem encodePath_scoped (kind : t.kind = .scopedTypeIdentifier) (parts : t.parts = [u, v]) :
    t.encodePath depth = u.encodePath depth >>= fun path => .ok (path ++ "." ++ v.text) := by
  rw [encodePath, if_neg (by rw [kind]; decide)]
  split
  · rename_i hu
    rw [hu] at parts
    cases parts
    rw [if_neg (by rw [kind]; decide), if_pos kind]
  · rename_i hu
    exact absurd parts (hu u v)

theorem mapM_attach_encodeArgument (ts : List Tree) :
    (ts.attach.mapM fun ⟨a, _⟩ => a.encodeArgument depth) = ts.mapM (·.encodeArgument depth) := by
  rw [List.mapM_subtype (g := fun a : Tree => a.encodeArgument depth) (fun _ _ => rfl), List.unattach_attach]

theorem encodeArguments_eq_ok {s : String} (kind : t.kind = .typeArguments) :
    t.encodeArguments depth = .ok s ↔ ∃ as, t.parts.mapM (·.encodeArgument (depth + 1)) = .ok as ∧
      as ≠ [] ∧ s = "<" ++ String.join as ++ ">" := by
  rw [encodeArguments]
  simp only [mapM_attach_encodeArgument]
  rw [bind_eq_ok]
  refine exists_congr fun as => and_congr_right fun _ => ?_
  cases as with
  | nil => simp
  | cons a as => simp [kind, eq_comm]

theorem encodeArgument_wildcard (kind : t.kind = .wildcard) (bounds : t.bounds = []) :
    t.encodeArgument depth = .ok "*" := by
  rw [encodeArgument, if_pos kind]
  split
  · rfl
  · rename_i hu
    rw [bounds] at hu
    cases hu

theorem encodeArgument_bound (kind : t.kind = .wildcard) (bounds : t.bounds = [u]) :
    t.encodeArgument depth = u.encodeType depth >>= fun b =>
      .ok ((if t.hasChild .superKeyword then "-" else "+") ++ b) := by
  have last : t.bounds.getLast? = some u := by rw [bounds]; rfl
  rw [encodeArgument, if_pos kind]
  split
  · rename_i hu
    rw [hu] at last
    cases last
  · rename_i hu
    rw [hu] at last
    cases last
    rfl

theorem encodeArgument_type (kind : t.kind ≠ .wildcard) : t.encodeArgument depth = t.encodeType depth := by
  rw [encodeArgument, if_neg kind]

end Tree

/-! ### The code of a tree -/

theorem WrittenHead.kind_eq {h : WrittenHead} (ht : h.SpelledBy t) :
    t.kind = .typeIdentifier ∨ t.kind = .scopedTypeIdentifier := by
  cases h with
  | simple x => exact .inl ht.1
  | member outer x => exact .inr ht.1

theorem WrittenReference.kind_eq {r : WrittenReference} (ht : r.SpelledBy t) :
    t.kind = .typeIdentifier ∨ t.kind = .scopedTypeIdentifier ∨ t.kind = .genericType := by
  cases r with
  | raw h =>
    rcases h.kind_eq ht with hk | hk
    · exact .inl hk
    · exact .inr (.inl hk)
  | generic h as => exact .inr (.inr ht.1)

theorem WrittenType.kind_ne_wildcard {ty : WrittenType} (ht : ty.SpelledBy t) : t.kind ≠ .wildcard := by
  cases ty with
  | primitive p => rw [ht.1]; cases p <;> decide
  | reference r => rcases r.kind_eq ht with hk | hk | hk <;> simp [hk]
  | array e n => simp [ht.1]
  | annotated e => simp [ht.1]

theorem WrittenArguments.join_codes (as : WrittenArguments) :
    String.join (as.toList.map fun a => String.ofList a.code) = String.ofList as.code := by
  rw [← String.toList_inj, String.toList_join, String.toList_ofList]
  induction as using WrittenArguments.toList.induct with
  | case1 a => simp [WrittenArguments.toList, WrittenArguments.code]
  | case2 a as ih => simpa [WrittenArguments.toList, WrittenArguments.code] using ih

theorem WrittenArguments.toList_ne_nil (as : WrittenArguments) : as.toList ≠ [] := by
  cases as <;> simp [toList]

theorem ok_eq_ofList {x s : String} {cs : List Char} (h : x.toList = cs) :
    (.ok x : Except TypeProblem String) = .ok s ↔ s = String.ofList cs := by
  rw [← h, String.ofList_toList, Except.ok.injEq, eq_comm]

/-- The guard on the depth stands in the type itself. -/
theorem Tree.encodeType_guard {n : Nat} {s : String} {p : Prop}
    (h : depth ≤ maxNesting → (t.encodeType depth = .ok s ↔ depth + n ≤ maxNesting ∧ p)) :
    t.encodeType depth = .ok s ↔ depth + n ≤ maxNesting ∧ p := by
  rcases Nat.lt_or_ge maxNesting depth with hd | hd
  · rw [Tree.encodeType_tooDeep hd]
    refine ⟨?_, ?_⟩
    · intro h
      cases h
    · rintro ⟨h, -⟩
      omega
  · exact h hd

/-! The depth of a node is the number of argument lists around it, so a type fits just in case its own
nesting does on top of this depth. -/

mutual

theorem WrittenType.encodeType_eq_ok : (ty : WrittenType) → {t : Tree} → ty.SpelledBy t → (depth : Nat) →
    (s : String) → (t.encodeType depth = .ok s ↔ depth + ty.nesting ≤ maxNesting ∧ s = String.ofList ty.code)
  | .primitive p, t, ⟨kind, text⟩, depth, s => Tree.encodeType_guard fun hd => by
    rw [Tree.encodeType_primitive hd kind text]
    simp [WrittenType.nesting, WrittenType.code, hd, eq_comm]
  | .reference r, t, ht, depth, s => Tree.encodeType_guard fun hd => by
    rw [Tree.encodeType_reference hd (r.kind_eq ht), bind_eq_ok]
    simp only [r.encodePath_eq_ok ht depth hd, and_assoc, exists_and_left, exists_eq_left]
    exact and_congr_right' (ok_eq_ofList (by simp [WrittenType.code]))
  | .array e n, t, ⟨kind, ⟨u, element, hu⟩, d, dimensions, hn⟩, depth, s => Tree.encodeType_guard fun hd => by
    rw [Tree.encodeType_array hd kind element, bind_eq_ok]
    simp only [e.encodeType_eq_ok hu depth, and_assoc, exists_and_left, exists_eq_left]
    exact and_congr_right' (ok_eq_ofList (by simp [WrittenType.code, dimensionMarks, Tree.dimensions, dimensions, hn]))
  | .annotated e, t, ⟨kind, u, parts, hu⟩, depth, s => Tree.encodeType_guard fun hd => by
    rw [Tree.encodeType_annotated hd kind parts, e.encodeType_eq_ok hu depth s]
    rfl

theorem WrittenReference.encodePath_eq_ok : (r : WrittenReference) → {t : Tree} → r.SpelledBy t → (depth : Nat) →
    depth ≤ maxNesting → (s : String) →
    (t.encodePath depth = .ok s ↔ depth + r.nesting ≤ maxNesting ∧ s = String.ofList r.code)
  | .raw h, t, ht, depth, hd, s => h.encodePath_eq_ok ht depth hd s
  | .generic h as, t, ⟨kind, u, v, parts, hu, hv, has⟩, depth, hd, s => by
    rw [Tree.encodePath_generic kind parts]
    simp only [bind_eq_ok, h.encodePath_eq_ok hu depth hd, Tree.encodeArguments_eq_ok hv, as.mapM_eq_ok has depth hd,
      and_assoc, exists_and_left, exists_eq_left]
    rw [← and_assoc]
    refine and_congr ?_ ?_
    · rw [WrittenReference.nesting]
      omega
    · rw [as.join_codes, ← ok_eq_ofList (x := String.ofList h.code ++ ("<" ++ String.ofList as.code ++ ">"))]
      · simp [as.toList_ne_nil]
      · simp [WrittenReference.code]

theorem WrittenHead.encodePath_eq_ok : (h : WrittenHead) → {t : Tree} → h.SpelledBy t → (depth : Nat) →
    depth ≤ maxNesting → (s : String) →
    (t.encodePath depth = .ok s ↔ depth + h.nesting ≤ maxNesting ∧ s = String.ofList h.code)
  | .simple x, t, ⟨kind, text⟩, depth, hd, s => by
    rw [Tree.encodePath_identifier kind, WrittenHead.nesting, WrittenHead.code, ← text, String.ofList_toList]
    simp [hd, eq_comm]
  | .member outer x, t, ⟨kind, u, v, parts, hu, hv, text⟩, depth, hd, s => by
    rw [Tree.encodePath_scoped kind parts]
    simp only [bind_eq_ok, outer.encodePath_eq_ok hu depth hd, and_assoc, exists_and_left, exists_eq_left]
    exact and_congr_right' (ok_eq_ofList (by simp [WrittenHead.code, text]))

theorem WrittenArguments.mapM_eq_ok : (as : WrittenArguments) → {ts : List Tree} → as.SpelledBy ts → (depth : Nat) →
    depth ≤ maxNesting → (l : List String) →
    (ts.mapM (·.encodeArgument (depth + 1)) = .ok l ↔
      depth + as.nesting ≤ maxNesting ∧ l = as.toList.map fun a => String.ofList a.code)
  | .one a, _, ⟨t, rfl, ht⟩, depth, hd, l => by
    rw [List.mapM_cons, bind_eq_ok]
    simp only [a.encodeArgument_eq_ok ht depth hd, and_assoc, exists_and_left, exists_eq_left]
    exact and_congr_right' (by simp [WrittenArguments.toList, bind, Except.bind, pure, Except.pure, eq_comm])
  | .more a as, _, ⟨t, ts, rfl, ht, hts⟩, depth, hd, l => by
    rw [List.mapM_cons]
    simp only [bind_eq_ok, a.encodeArgument_eq_ok ht depth hd, as.mapM_eq_ok hts depth hd, and_assoc, exists_and_left,
      exists_eq_left]
    rw [← and_assoc]
    refine and_congr ?_ ?_
    · rw [WrittenArguments.nesting]
      omega
    · simp [WrittenArguments.toList, pure, Except.pure, eq_comm]

theorem WrittenArgument.encodeArgument_eq_ok : (a : WrittenArgument) → {t : Tree} → a.SpelledBy t → (depth : Nat) →
    depth ≤ maxNesting → (s : String) →
    (t.encodeArgument (depth + 1) = .ok s ↔ depth + a.nesting ≤ maxNesting ∧ s = String.ofList a.code)
  | .unbounded, t, ⟨kind, bounds⟩, depth, hd, s => by
    rw [Tree.encodeArgument_wildcard kind bounds]
    simp [WrittenArgument.nesting, WrittenArgument.code, hd, eq_comm]
  | .exactly e, t, ht, depth, hd, s => by
    rw [Tree.encodeArgument_type (e.kind_ne_wildcard ht), e.encodeType_eq_ok ht (depth + 1) s, Nat.add_right_comm]
    rfl
  | .upper e, t, ⟨kind, super, u, bounds, hu⟩, depth, hd, s => by
    rw [Tree.encodeArgument_bound kind bounds, super, bind_eq_ok]
    simp only [e.encodeType_eq_ok hu (depth + 1), and_assoc, exists_and_left, exists_eq_left]
    rw [Nat.add_right_comm]
    exact and_congr_right' (ok_eq_ofList (by simp [WrittenArgument.code]))
  | .lower e, t, ⟨kind, super, u, bounds, hu⟩, depth, hd, s => by
    rw [Tree.encodeArgument_bound kind bounds, super, bind_eq_ok]
    simp only [e.encodeType_eq_ok hu (depth + 1), and_assoc, exists_and_left, exists_eq_left]
    rw [Nat.add_right_comm]
    exact and_congr_right' (ok_eq_ofList (by simp [WrittenArgument.code]))

end

theorem VoidTree.encodeType_eq_ok (h : VoidTree t) (s : String) :
    t.encodeType depth = .ok s ↔ depth + 0 ≤ maxNesting ∧ s = "V" := by
  induction h with
  | plain kind text =>
    refine Tree.encodeType_guard fun hd => ?_
    rw [Tree.encodeType_void hd kind text]
    simp [hd, eq_comm]
  | annotated kind parts void ih =>
    refine Tree.encodeType_guard fun hd => ?_
    rw [Tree.encodeType_annotated hd kind parts, ih]

theorem DeclaredType.signature_eq_ok (ty : DeclaredType) (h : ty.SpelledBy t) (s : String) :
    t.signature = .ok s ↔ ty.nesting ≤ maxNesting ∧ s = String.ofList ty.code := by
  cases ty with
  | void => exact VoidTree.encodeType_eq_ok h s
  | type ty =>
    have := ty.encodeType_eq_ok h 0 s
    rwa [Nat.zero_add] at this

end TypeAtlas.Syntax
