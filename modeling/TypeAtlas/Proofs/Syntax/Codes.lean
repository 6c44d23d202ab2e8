import TypeAtlas.Proofs.Syntax.Encoding

/-! The answers of the encoder as a relation between trees and texts: one rule for each way in which a
node is encoded, whatever else the tree holds. What is said of signatures that come from any tree goes
by induction on these rules. -/

namespace TypeAtlas.Syntax

open Signature (maxNesting)

/-- The nodes of primitive types and void; only their texts tell which. -/
def NodeKind.isKeyword : NodeKind → Bool
  | .integralType | .floatingPointType | .booleanType | .voidType => true
  | _ => false

def NodeKind.isReference : NodeKind → Bool
  | .typeIdentifier | .scopedTypeIdentifier | .genericType => true
  | _ => false

mutual

inductive TypeCode : Tree → Nat → List Char → Prop
  | void {t : Tree} {depth : Nat} (fits : depth ≤ maxNesting) (kind : t.kind.isKeyword) (text : t.text = "void") :
      TypeCode t depth ['V']
  | primitive {t : Tree} {depth : Nat} (fits : depth ≤ maxNesting) (kind : t.kind.isKeyword) (p : Primitive)
      (text : t.text = p.name) : TypeCode t depth [p.marker]
  | reference {t : Tree} {depth : Nat} {cs : List Char} (fits : depth ≤ maxNesting) (kind : t.kind.isReference)
      (path : PathCode t depth cs) : TypeCode t depth ('Q' :: cs ++ [';'])
  | array {t u : Tree} {depth : Nat} {cs : List Char} (kind : t.kind = .arrayType)
      (element : t.child? "element" = some u) (code : TypeCode u depth cs) :
      TypeCode t depth (List.replicate t.dimensions '[' ++ cs)
  | annotated {t u : Tree} {depth : Nat} {cs : List Char} (kind : t.kind = .annotatedType)
      (last : t.parts.getLast? = some u) (code : TypeCode u depth cs) : TypeCode t depth cs

/-- The second part of a scoped type is copied as it stands. -/
inductive PathCode : Tree → Nat → List Char → Prop
  | identifier {t : Tree} {depth : Nat} (kind : t.kind = .typeIdentifier) : PathCode t depth t.text.toList
  | member {t u v : Tree} {depth : Nat} {cs : List Char} (kind : t.kind = .scopedTypeIdentifier)
      (parts : t.parts = [u, v]) (path : PathCode u depth cs) : PathCode t depth (cs ++ '.' :: v.text.toList)
  | generic {t u v : Tree} {depth : Nat} {cs as : List Char} (kind : t.kind = .genericType)
      (parts : t.parts = [u, v]) (path : PathCode u depth cs) (nonempty : v.parts ≠ [])
      (arguments : ArgumentCodes v.parts (depth + 1) as) : PathCode t depth (cs ++ '<' :: as ++ ['>'])

inductive ArgumentCodes : List Tree → Nat → List Char → Prop
  | nil {depth : Nat} : ArgumentCodes [] depth []
  | cons {t : Tree} {ts : List Tree} {depth : Nat} {cs as : List Char} (argument : ArgumentCode t depth cs)
      (rest : ArgumentCodes ts depth as) : ArgumentCodes (t :: ts) depth (cs ++ as)

inductive ArgumentCode : Tree → Nat → List Char → Prop
  | unbounded {t : Tree} {depth : Nat} (kind : t.kind = .wildcard) (bounds : t.bounds = []) : ArgumentCode t depth ['*']
  | upper {t u : Tree} {depth : Nat} {cs : List Char} (kind : t.kind = .wildcard) (last : t.bounds.getLast? = some u)
      (super : t.hasChild .superKeyword = false) (code : TypeCode u depth cs) : ArgumentCode t depth ('+' :: cs)
  | lower {t u : Tree} {depth : Nat} {cs : List Char} (kind : t.kind = .wildcard) (last : t.bounds.getLast? = some u)
      (super : t.hasChild .superKeyword = true) (code : TypeCode u depth cs) : ArgumentCode t depth ('-' :: cs)
  | exactly {t : Tree} {depth : Nat} {cs : List Char} (kind : t.kind ≠ .wildcard) (code : TypeCode t depth cs) :
      ArgumentCode t depth cs

end

variable {t : Tree} {depth : Nat} {w : String}

theorem primitiveSignature?_eq_some {word : String} (h : primitiveSignature? word = some w) :
    (word = "void" ∧ w = "V") ∨ ∃ p : Primitive, word = p.name ∧ w = String.singleton p.marker := by
  unfold primitiveSignature? at h
  split at h
  · rename_i hv
    cases h
    exact .inl ⟨hv, rfl⟩
  · obtain ⟨p, hp, rfl⟩ := Option.map_eq_some_iff.mp h
    have name := List.find?_some hp
    exact .inr ⟨p, (beq_iff_eq.mp name).symm, rfl⟩

theorem typeCode_of_keyword {e : TypeProblem} (fits : depth ≤ maxNesting) (kind : t.kind.isKeyword)
    (h : (match primitiveSignature? t.text with
      | some signature => .ok signature
      | none => .error e) = Except.ok w) : TypeCode t depth w.toList := by
  split at h
  · rename_i hs
    cases h
    rcases primitiveSignature?_eq_some hs with ⟨text, rfl⟩ | ⟨p, text, rfl⟩
    · exact .void fits kind text
    · rw [String.toList_singleton]
      exact .primitive fits kind p text
  · cases h

theorem argumentCodes_of_mapM {ts : List Tree} {as : List String}
    (argument : ∀ a ∈ ts, ∀ s : String, a.encodeArgument depth = .ok s → ArgumentCode a depth s.toList)
    (h : ts.mapM (·.encodeArgument depth) = .ok as) : ArgumentCodes ts depth (String.join as).toList := by
  induction ts generalizing as with
  | nil =>
    cases h
    exact .nil
  | cons a ts ih =>
    rw [List.mapM_cons] at h
    obtain ⟨s, hs, h⟩ := bind_eq_ok.mp h
    obtain ⟨ss, hss, h⟩ := bind_eq_ok.mp h
    cases h
    have rest := ih (fun b hb => argument b (List.mem_cons_of_mem a hb)) hss
    have first := argument a List.mem_cons_self s hs
    simpa [String.toList_join] using ArgumentCodes.cons first rest

mutual

theorem typeCode_of_encodeType (t : Tree) {depth : Nat} {w : String} (h : t.encodeType depth = .ok w) :
    TypeCode t depth w.toList := by
  have reference (fits : depth ≤ maxNesting) (kind : t.kind.isReference)
      (h : (t.encodePath depth >>= fun path => .ok ("Q" ++ path ++ ";")) = .ok w) : TypeCode t depth w.toList := by
    obtain ⟨path, hp, h⟩ := bind_eq_ok.mp h
    cases h
    simpa using TypeCode.reference fits kind (pathCode_of_encodePath t hp)
  unfold Tree.encodeType at h
  split at h
  · cases h
  · rename_i fits
    rw [Nat.not_lt] at fits
    split at h
    · rename_i kind
      exact typeCode_of_keyword fits (by rw [kind]; rfl) h
    · rename_i kind
      exact typeCode_of_keyword fits (by rw [kind]; rfl) h
    · rename_i kind
      exact typeCode_of_keyword fits (by rw [kind]; rfl) h
    · rename_i kind
      exact typeCode_of_keyword fits (by rw [kind]; rfl) h
    · rename_i kind
      exact reference fits (by rw [kind]; rfl) h
    · rename_i kind
      exact reference fits (by rw [kind]; rfl) h
    · rename_i kind
      exact reference fits (by rw [kind]; rfl) h
    · rename_i kind
      split at h
      · rename_i element he
        obtain ⟨e, hs, h⟩ := bind_eq_ok.mp h
        have := Tree.sizeOf_lt_of_child? he
        cases h
        simpa [dimensionMarks] using TypeCode.array kind he (typeCode_of_encodeType element hs)
      · cases h
    · rename_i kind
      split at h
      · rename_i type ht
        have := Tree.sizeOf_lt_of_mem_parts (List.mem_of_getLast? ht)
        exact .annotated kind ht (typeCode_of_encodeType type h)
      · cases h
    · cases h
termination_by (sizeOf t, 1)

theorem pathCode_of_encodePath (t : Tree) {depth : Nat} {w : String} (h : t.encodePath depth = .ok w) :
    PathCode t depth w.toList := by
  unfold Tree.encodePath at h
  split at h
  · rename_i kind
    cases h
    exact .identifier kind
  · split at h
    · rename_i first second parts
      have h₁ : sizeOf first < sizeOf t := Tree.sizeOf_lt_of_mem_parts (by simp [parts])
      have h₂ : sizeOf second < sizeOf t := Tree.sizeOf_lt_of_mem_parts (by simp [parts])
      split at h
      · rename_i kind
        obtain ⟨path, hp, h⟩ := bind_eq_ok.mp h
        obtain ⟨as, ha, h⟩ := bind_eq_ok.mp h
        cases h
        obtain ⟨bs, nonempty, codes, rfl⟩ := argumentCodes_of_encodeArguments second ha
        simpa using PathCode.generic kind parts (pathCode_of_encodePath first hp) nonempty codes
      · split at h
        · rename_i kind
          obtain ⟨path, hp, h⟩ := bind_eq_ok.mp h
          cases h
          simpa using PathCode.member kind parts (pathCode_of_encodePath first hp)
        · cases h
    · cases h
termination_by (sizeOf t, 0)

theorem argumentCodes_of_encodeArguments (t : Tree) {depth : Nat} {w : String}
    (h : t.encodeArguments depth = .ok w) :
    ∃ bs : List Char, t.parts ≠ [] ∧ ArgumentCodes t.parts (depth + 1) bs ∧ w = String.ofList ('<' :: bs ++ ['>']) := by
  rw [Tree.encodeArguments] at h
  simp only [Tree.mapM_attach_encodeArgument] at h
  obtain ⟨as, ha, h⟩ := bind_eq_ok.mp h
  split at h
  · cases h
  · rename_i list
    cases h
    refine ⟨(String.join as).toList, ?_, argumentCodes_of_mapM (fun a hm s hs => ?_) ha, ?_⟩
    · intro nil
      rw [nil] at ha
      cases ha
      simp at list
    · have := Tree.sizeOf_lt_of_mem_parts hm
      exact argumentCode_of_encodeArgument a hs
    · simp [← String.toList_inj]
termination_by (sizeOf t, 0)

theorem argumentCode_of_encodeArgument (t : Tree) {depth : Nat} {w : String}
    (h : t.encodeArgument depth = .ok w) : ArgumentCode t depth w.toList := by
  unfold Tree.encodeArgument at h
  split at h
  · rename_i kind
    split at h
    · rename_i none
      cases h
      exact .unbounded kind (List.getLast?_eq_none_iff.mp none)
    · rename_i bound last
      have := Tree.sizeOf_lt_of_mem_parts (Tree.mem_parts_of_mem_bounds (List.mem_of_getLast? last))
      obtain ⟨b, hb, h⟩ := bind_eq_ok.mp h
      cases h
      have code := typeCode_of_encodeType bound hb
      cases super : t.hasChild .superKeyword with
      | true => simpa using ArgumentCode.lower kind last super code
      | false => simpa using ArgumentCode.upper kind last super code
  · rename_i kind
    exact .exactly kind (typeCode_of_encodeType t h)
termination_by (sizeOf t, 2)

end

end TypeAtlas.Syntax
