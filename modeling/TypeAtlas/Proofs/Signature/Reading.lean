import TypeAtlas.Proofs.Runs
import TypeAtlas.Proofs.Signature.Names

/-! Reading signatures against the grammar. The reader takes the text of a derivation off the front of
any text and gives the derived type, if the type is not nested too deep; and whatever it takes off is
the text of such a derivation. -/

namespace TypeAtlas.Signature

/-- No type begins like the end of its list, a wildcard or void. -/
theorem TypeTree.text_eq_cons (t : TypeTree) :
    ∃ c cs, t.text = c :: cs ∧ c ≠ '>' ∧ c ≠ '*' ∧ c ≠ '+' ∧ c ≠ '-' ∧ c ≠ 'V' := by
  have dims (n : Nat) (c : Char) (cs : List Char)
      (hc : c ≠ '>' ∧ c ≠ '*' ∧ c ≠ '+' ∧ c ≠ '-' ∧ c ≠ 'V') :
      ∃ d ds, List.replicate n '[' ++ c :: cs = d :: ds ∧ d ≠ '>' ∧ d ≠ '*' ∧ d ≠ '+' ∧ d ≠ '-' ∧ d ≠ 'V' := by
    cases n with
    | zero => exact ⟨c, cs, rfl, hc⟩
    | succ n => exact ⟨'[', List.replicate n '[' ++ c :: cs, rfl, by decide⟩
  cases t with
  | primitive n p => exact dims n _ [] (by cases p <;> decide)
  | typeVariable n x =>
    rw [text, List.append_assoc]
    exact dims n 'T' _ (by decide)
  | reference n o body => exact dims n _ _ (by cases o <;> decide)

theorem takeWhile_dims (n : Nat) {c : Char} (hc : c ≠ '[') (r : List Char) :
    (List.replicate n '[' ++ c :: r).takeWhile (· = '[') = List.replicate n '[' :=
  takeWhile_append_cons (by simp) (by simpa using hc)

theorem dropWhile_dims (n : Nat) {c : Char} (hc : c ≠ '[') (r : List Char) :
    (List.replicate n '[' ++ c :: r).dropWhile (· = '[') = c :: r :=
  dropWhile_append_cons (by simp) (by simpa using hc)

theorem parseTypeVariable_name (x : Name) (rest : List Char) :
    parseTypeVariable (x.chars ++ ';' :: rest) = .ok (String.ofList x.chars, rest) := by
  have hx : ∀ c ∈ x.chars, (c != ';') = true := fun c h => by
    simpa using ne_of_isNameChar (by decide) (x.isNameChar h)
  unfold parseTypeVariable
  rw [takeWhile_append_cons hx (by decide), dropWhile_append_cons hx (by decide)]
  simp [x.chars_ne_nil, x.all_chars]

theorem parsePath_last (type : Reader TypeSig) (limit : Nat) (x : DottedName) (rest : List Char) :
    parsePath type (limit + 1) (x.text ++ ';' :: rest) = .ok (.last (String.ofList x.text) [], rest) := by
  rw [parsePath, takeWhile_append_cons (fun _ => x.isNamePart_of_mem) (by decide),
    dropWhile_append_cons (fun _ => x.isNamePart_of_mem) (by decide)]
  simp [x.isDottedName_text]

theorem parsePath_generic {type : Reader TypeSig} {limit : Nat} {as : List Argument} {r rest : List Char}
    (x : DottedName) (hne : as ≠ []) (h : parseArguments type limit r = .ok (as, ';' :: rest)) :
    parsePath type (limit + 1) (x.text ++ '<' :: r) = .ok (.last (String.ofList x.text) as, rest) := by
  rw [parsePath, takeWhile_append_cons (fun _ => x.isNamePart_of_mem) (by decide),
    dropWhile_append_cons (fun _ => x.isNamePart_of_mem) (by decide)]
  simp [x.isDottedName_text, h, hne, bind, Except.bind]

theorem parsePath_member {type : Reader TypeSig} {limit : Nat} {as : List Argument} {inner : ClassPath}
    {r r' rest : List Char} (x : DottedName) (hne : as ≠ [])
    (h : parseArguments type limit r = .ok (as, '.' :: r')) (hi : parsePath type limit r' = .ok (inner, rest)) :
    parsePath type (limit + 1) (x.text ++ '<' :: r) = .ok (.outer (String.ofList x.text) as inner, rest) := by
  rw [parsePath, takeWhile_append_cons (fun _ => x.isNamePart_of_mem) (by decide),
    dropWhile_append_cons (fun _ => x.isNamePart_of_mem) (by decide)]
  simp [x.isDottedName_text, h, hi, hne, bind, Except.bind]

theorem ArgumentTrees.list_ne_nil (as : ArgumentTrees) : as.list ≠ [] := by
  cases as <;> simp [list]

theorem ArgumentTree.text_length_pos (a : ArgumentTree) : 0 < a.text.length := by
  cases a with
  | unbounded => simp [text]
  | exactly t =>
    obtain ⟨c, cs, h, -⟩ := t.text_eq_cons
    simp [text, h]
  | upper t => simp [text]
  | lower t => simp [text]

mutual

theorem parseType_text : (t : TypeTree) → (levels : Nat) → t.nesting < levels → (rest : List Char) →
    parseType levels (t.text ++ rest) = .ok (t.sig, rest)
  | _, 0, h, _ => absurd h (Nat.not_lt_zero _)
  | .primitive n p, levels + 1, _, rest => by
    have hp : p.marker ≠ '[' := by cases p <;> decide
    rw [TypeTree.text, List.append_assoc, List.cons_append, List.nil_append, parseType,
      takeWhile_dims n hp, dropWhile_dims n hp, List.length_replicate]
    simp only [Primitive.ofMarker?_marker]
    rfl
  | .typeVariable n x, levels + 1, _, rest => by
    rw [TypeTree.text, List.append_assoc, List.append_assoc, List.cons_append, parseType,
      takeWhile_dims n (by decide), dropWhile_dims n (by decide), List.length_replicate]
    simp only [List.cons_append, List.nil_append, parseTypeVariable_name]
    rfl
  | .reference n o body, levels + 1, h, rest => by
    have ho : o.marker ≠ '[' := by cases o <;> decide
    have hp : Primitive.ofMarker? o.marker = none := by cases o <;> rfl
    have hv : o.marker ≠ 'V' := by cases o <;> decide
    have ht : o.marker ≠ 'T' := by cases o <;> decide
    have hn : body.nesting ≤ levels := by simpa [TypeTree.nesting] using Nat.le_of_lt_succ h
    have hbody := parsePath_text body levels ((body.text ++ rest).length + 1) hn
      (by simp; omega) rest
    rw [TypeTree.text, List.append_assoc, List.cons_append, parseType, takeWhile_dims n ho, dropWhile_dims n ho,
      List.length_replicate]
    simp only [hp, if_neg hv, if_neg ht, Origin.ofMarker?_marker, hbody]
    rfl

theorem parsePath_text : (body : BodyTree) → (levels limit : Nat) → body.nesting ≤ levels →
    body.text.length ≤ limit → (rest : List Char) →
    parsePath (parseType levels) limit (body.text ++ rest) = .ok (body.path, rest)
  | .plain x, levels, limit, _, hl, rest => by
    obtain ⟨limit, rfl⟩ : ∃ l, limit = l + 1 := ⟨limit - 1, by simp [BodyTree.text] at hl; omega⟩
    rw [BodyTree.text, List.append_assoc]
    exact parsePath_last _ limit x rest
  | .generic x as, levels, limit, hn, hl, rest => by
    simp only [BodyTree.text, List.length_append, List.length_cons] at hl
    obtain ⟨limit, rfl⟩ : ∃ l, limit = l + 1 := ⟨limit - 1, by omega⟩
    rw [BodyTree.text, List.append_assoc, List.append_assoc]
    exact parsePath_generic x as.list_ne_nil
      (parseArguments_text as levels limit (by simpa [BodyTree.nesting] using hn) (by omega) (';' :: rest))
  | .member x as inner, levels, limit, hn, hl, rest => by
    simp only [BodyTree.text, List.length_append, List.length_cons] at hl
    obtain ⟨limit, rfl⟩ : ∃ l, limit = l + 1 := ⟨limit - 1, by omega⟩
    obtain ⟨has, hinner⟩ := Nat.max_le.mp (by simpa [BodyTree.nesting] using hn)
    rw [BodyTree.text, List.append_assoc, List.append_assoc]
    exact parsePath_member x as.list_ne_nil
      (parseArguments_text as levels limit has (by omega) ('.' :: (inner.text ++ rest)))
      (parsePath_text inner levels limit hinner (by omega) rest)

theorem parseArguments_text : (as : ArgumentTrees) → (levels limit : Nat) → as.nesting ≤ levels →
    as.text.length < limit → (rest : List Char) →
    parseArguments (parseType levels) limit (as.text ++ '>' :: rest) = .ok (as.list, rest)
  | .one a, levels, limit, hn, hl, rest => by
    have ha := a.text_length_pos
    simp only [ArgumentTrees.text] at hl
    obtain ⟨limit, rfl⟩ : ∃ l, limit = l + 1 + 1 := ⟨limit - 2, by omega⟩
    exact parseArguments_argument a levels hn (by rw [parseArguments, if_pos rfl])
  | .more a as, levels, limit, hn, hl, rest => by
    have ha := a.text_length_pos
    simp only [ArgumentTrees.text, List.length_append] at hl
    obtain ⟨limit, rfl⟩ : ∃ l, limit = l + 1 := ⟨limit - 1, by omega⟩
    obtain ⟨hn, hns⟩ := Nat.max_le.mp (by simpa [ArgumentTrees.nesting] using hn)
    rw [ArgumentTrees.text, List.append_assoc]
    exact parseArguments_argument a levels hn (parseArguments_text as levels limit hns (by omega) rest)

/-- One argument before others. -/
theorem parseArguments_argument : (a : ArgumentTree) → (levels : Nat) → a.nesting ≤ levels →
    {limit : Nat} → {s rest : List Char} → {as : List Argument} →
    parseArguments (parseType levels) limit s = .ok (as, rest) →
    parseArguments (parseType levels) (limit + 1) (a.text ++ s) = .ok (a.argument :: as, rest)
  | .unbounded, levels, _, limit, s, rest, as, h => by
    simp [ArgumentTree.text, parseArguments, h, bind, Except.bind, ArgumentTree.argument]
  | .exactly t, levels, hn, limit, s, rest, as, h => by
    obtain ⟨c, cs, hc, h₁, h₂, h₃, h₄, -⟩ := t.text_eq_cons
    have ht := parseType_text t levels hn s
    rw [hc, List.cons_append] at ht
    rw [ArgumentTree.text, hc, List.cons_append, parseArguments, if_neg h₁, if_neg h₂, if_neg h₃, if_neg h₄, ht]
    simp [h, bind, Except.bind, ArgumentTree.argument]
  | .upper t, levels, hn, limit, s, rest, as, h => by
    simp [ArgumentTree.text, parseArguments, parseType_text t levels hn s, h, bind, Except.bind,
      ArgumentTree.argument]
  | .lower t, levels, hn, limit, s, rest, as, h => by
    simp [ArgumentTree.text, parseArguments, parseType_text t levels hn s, h, bind, Except.bind,
      ArgumentTree.argument]

end

/-- Whatever a reader takes off is the text of a type with less than `levels` argument lists around
each of its parts. -/
def ReadsTypes (levels : Nat) (type : Reader TypeSig) : Prop :=
  ∀ ⦃s t rest⦄, type s = .ok (t, rest) → ∃ d : TypeTree, d.nesting < levels ∧ d.sig = t ∧ s = d.text ++ rest

/-- The arguments read so far, up to the end of their list: none or a derivation of them. -/
def ReadsArguments (levels : Nat) (s : List Char) (as : List Argument) (rest : List Char) : Prop :=
  (as = [] ∧ s = '>' :: rest) ∨
    ∃ d : ArgumentTrees, d.nesting ≤ levels ∧ d.list = as ∧ s = d.text ++ '>' :: rest

theorem ReadsArguments.cons {levels : Nat} {s rest : List Char} {as : List Argument}
    (h : ReadsArguments levels s as rest) {a : ArgumentTree} (ha : a.nesting ≤ levels) :
    ReadsArguments levels (a.text ++ s) (a.argument :: as) rest := by
  rcases h with ⟨rfl, rfl⟩ | ⟨d, hd, rfl, rfl⟩
  · exact .inr ⟨.one a, ha, rfl, rfl⟩
  · exact .inr ⟨.more a d, Nat.max_le.mpr ⟨ha, hd⟩, rfl, by rw [ArgumentTrees.text, List.append_assoc]⟩

theorem readsArguments_of_parseArguments {levels : Nat} {type : Reader TypeSig} (htype : ReadsTypes levels type)
    {limit : Nat} {s rest : List Char} {as : List Argument} (h : parseArguments type limit s = .ok (as, rest)) :
    ReadsArguments levels s as rest := by
  induction limit generalizing s as rest with
  | zero => cases h
  | succ limit ih =>
    cases s with
    | nil => cases h
    | cons c s =>
      unfold parseArguments at h
      split at h
      · rename_i hc
        cases h
        exact .inl ⟨rfl, by rw [hc]⟩
      · split at h
        · rename_i hc
          obtain ⟨⟨as, r⟩, has, h⟩ := bind_eq_ok.mp h
          cases h
          rw [hc]
          exact (ih has).cons (a := .unbounded) (Nat.zero_le _)
        · split at h
          · rename_i hc
            obtain ⟨⟨t, r⟩, ht, h⟩ := bind_eq_ok.mp h
            obtain ⟨⟨as, r'⟩, has, h⟩ := bind_eq_ok.mp h
            cases h
            obtain ⟨d, hd, rfl, rfl⟩ := htype ht
            rw [hc]
            exact (ih has).cons (a := .upper d) hd
          · split at h
            · rename_i hc
              obtain ⟨⟨t, r⟩, ht, h⟩ := bind_eq_ok.mp h
              obtain ⟨⟨as, r'⟩, has, h⟩ := bind_eq_ok.mp h
              cases h
              obtain ⟨d, hd, rfl, rfl⟩ := htype ht
              rw [hc]
              exact (ih has).cons (a := .lower d) hd
            · obtain ⟨⟨t, r⟩, ht, h⟩ := bind_eq_ok.mp h
              obtain ⟨⟨as, r'⟩, has, h⟩ := bind_eq_ok.mp h
              cases h
              obtain ⟨d, hd, rfl, hs⟩ := htype ht
              rw [hs]
              exact (ih has).cons (a := .exactly d) hd

theorem body_of_parsePath {levels : Nat} {type : Reader TypeSig} (htype : ReadsTypes levels type)
    {limit : Nat} {s rest : List Char} {path : ClassPath} (h : parsePath type limit s = .ok (path, rest)) :
    ∃ d : BodyTree, d.nesting ≤ levels ∧ d.path = path ∧ s = d.text ++ rest := by
  induction limit generalizing s path rest with
  | zero => cases h
  | succ limit ih =>
    unfold parsePath at h
    dsimp only at h
    split at h
    · cases h
    · rename_i c r hs
      obtain ⟨hs, -⟩ := eq_takeWhile_append_cons hs
      split at h
      · rename_i hc
        split at h
        · rename_i hname
          obtain ⟨x, hx⟩ := isDottedName_iff.mp hname
          cases h
          refine ⟨.plain x, Nat.zero_le _, by rw [BodyTree.path, hx], ?_⟩
          rw [BodyTree.text, hx, List.append_assoc, ← hc]
          exact hs
        · cases h
      · split at h
        · rename_i hc
          split at h
          · rename_i hname
            obtain ⟨x, hx⟩ := isDottedName_iff.mp hname
            obtain ⟨⟨as, r'⟩, has, hrest⟩ := bind_eq_ok.mp h
            dsimp only at hrest
            rcases readsArguments_of_parseArguments htype has with ⟨rfl, -⟩ | ⟨d, hd, rfl, rfl⟩
            · cases hrest
            · rw [if_neg (by simp [d.list_ne_nil])] at hrest
              split at hrest
              · cases hrest
                refine ⟨.generic x d, hd, by rw [BodyTree.path, hx], ?_⟩
                rw [BodyTree.text, hx, List.append_assoc, List.cons_append, List.append_assoc, ← hc]
                exact hs
              · obtain ⟨⟨inner, r''⟩, hi, hrest⟩ := bind_eq_ok.mp hrest
                cases hrest
                obtain ⟨b, hb, rfl, rfl⟩ := ih hi
                refine ⟨.member x d b, Nat.max_le.mpr ⟨hd, hb⟩, by rw [BodyTree.path, hx], ?_⟩
                rw [BodyTree.text, hx, List.append_assoc, List.cons_append, List.append_assoc, ← hc]
                exact hs
              · cases hrest
          · cases h
        · cases h

theorem name_of_parseTypeVariable {s rest : List Char} {x : String} (h : parseTypeVariable s = .ok (x, rest)) :
    ∃ y : Name, String.ofList y.chars = x ∧ s = y.chars ++ ';' :: rest := by
  unfold parseTypeVariable at h
  dsimp only at h
  split at h
  · cases h
  · rename_i c r hs
    obtain ⟨hs, hc⟩ := eq_takeWhile_append_cons hs
    split at h
    · rename_i hname
      rw [Bool.and_eq_true] at hname
      cases h
      refine ⟨⟨_, by simpa using hname.1, hname.2⟩, rfl, ?_⟩
      obtain rfl : c = ';' := by simpa using hc
      exact hs
    · cases h

theorem readsTypes_parseType (levels : Nat) : ReadsTypes levels (parseType levels) := by
  induction levels with
  | zero =>
    intro s t rest h
    cases h
  | succ levels ih =>
    intro s t rest h
    unfold parseType at h
    dsimp only at h
    split at h
    · cases h
    · rename_i c r hs
      obtain ⟨hs, -⟩ := eq_takeWhile_append_cons hs
      have hdims : s.takeWhile (· = '[') = List.replicate (s.takeWhile (· = '[')).length '[' :=
        List.eq_replicate_of_mem fun b hb => by
          simpa using List.all_eq_true.mp List.all_takeWhile b hb
      rw [hdims] at hs
      generalize (s.takeWhile (· = '[')).length = n at h hs
      split at h
      · rename_i p hp
        cases h
        refine ⟨.primitive n p, Nat.succ_pos _, rfl, ?_⟩
        rw [TypeTree.text, Primitive.marker_of_ofMarker? hp, List.append_assoc]
        exact hs
      · split at h
        · cases h
        · split at h
          · rename_i hc
            obtain ⟨⟨x, r'⟩, hx, h⟩ := bind_eq_ok.mp h
            cases h
            obtain ⟨y, rfl, rfl⟩ := name_of_parseTypeVariable hx
            refine ⟨.typeVariable n y, Nat.succ_pos _, rfl, ?_⟩
            rw [TypeTree.text, List.append_assoc, List.append_assoc, ← hc]
            exact hs
          · split at h
            · rename_i o ho
              obtain ⟨⟨path, r'⟩, hpath, h⟩ := bind_eq_ok.mp h
              cases h
              obtain ⟨d, hd, rfl, rfl⟩ := body_of_parsePath ih hpath
              refine ⟨.reference n o d, Nat.lt_succ_of_le hd, rfl, ?_⟩
              rw [TypeTree.text, Origin.marker_of_ofMarker? ho, List.append_assoc]
              exact hs
            · cases h

theorem parseChars_eq_ok {s : List Char} {sig : Signature} :
    parseChars s = .ok sig ↔ ∃ d : Derivation, d.text = s ∧ d.nesting ≤ maxNesting ∧ d.signature = sig := by
  refine ⟨?_, ?_⟩
  · intro h
    unfold parseChars at h
    split at h
    · cases h
    · split at h
      · rename_i hr
        cases h
        exact ⟨.void, by rw [List.isEmpty_iff.mp hr]; rfl, Nat.zero_le _, rfl⟩
      · cases h
    · obtain ⟨⟨t, r⟩, ht, h⟩ := bind_eq_ok.mp h
      dsimp only at h
      split at h
      · rename_i hr
        cases h
        obtain ⟨d, hd, rfl, hs⟩ := readsTypes_parseType _ ht
        refine ⟨.type d, ?_, Nat.le_of_lt_succ hd, rfl⟩
        rw [hs, List.isEmpty_iff.mp hr, List.append_nil, Derivation.text]
      · cases h
  · rintro ⟨d, rfl, hd, rfl⟩
    cases d with
    | void => rfl
    | type t =>
      obtain ⟨c, cs, hc, -, -, -, -, hv⟩ := t.text_eq_cons
      have ht := parseType_text t (maxNesting + 1) (Nat.lt_succ_of_le hd) []
      rw [List.append_nil, hc] at ht
      rw [Derivation.text, hc]
      unfold parseChars
      split
      · rename_i h
        cases h
      · rename_i h
        cases h
        exact absurd rfl hv
      · simp [ht, bind, Except.bind, Derivation.signature]

theorem parse_eq_ok {s : String} {sig : Signature} :
    parse s = .ok sig ↔
      ∃ d : Derivation, d.text = s.toList ∧ d.nesting ≤ maxNesting ∧ d.signature = sig := by
  rw [parse, mapError_eq_ok, parseChars_eq_ok]

end TypeAtlas.Signature
