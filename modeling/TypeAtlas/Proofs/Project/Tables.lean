import Mathlib.Data.List.Basic
import Mathlib.Data.List.Find
import Mathlib.Data.List.Induction
import TypeAtlas.Platform

/-! What is found in a table, by the operation that made it: setting and updating put later entries over
earlier ones, adding keeps the first of each name. -/

namespace TypeAtlas

namespace Index

variable {ds es : List Declaration} {n : String}

theorem ofList_cons (d : Declaration) (ds : List Declaration) (n : String) :
    ofList (d :: ds) n = if n = d.name then some d else ofList ds n := by
  rw [ofList, List.find?_cons, ofList]
  rcases eq_or_ne n d.name with rfl | h
  · simp
  · simp [h, beq_false_of_ne h.symm]

theorem ofList_append (ds es : List Declaration) (n : String) : ofList (ds ++ es) n = (ofList ds n).or (ofList es n) :=
  List.find?_append

theorem ofList_eq_none : ofList ds n = none ↔ n ∉ ds.map (·.name) := by
  rw [ofList, List.find?_eq_none]
  simp

theorem name_of_ofList_eq {d : Declaration} (h : ofList ds n = some d) : d.name = n := by
  simpa using List.find?_some h

theorem mem_of_ofList_eq {d : Declaration} (h : ofList ds n = some d) : d ∈ ds := List.mem_of_find?_eq_some h

theorem isSome_ofList : (ofList ds n).isSome ↔ n ∈ ds.map (·.name) := by
  rw [Option.isSome_iff_ne_none, Ne, ofList_eq_none, not_not]

end Index

namespace Table

variable {t u : Table} {d : Declaration} {ds : List Declaration} {name n : String}

theorem find?_setEntry (name : String) (d : Declaration) (es : List (String × Declaration)) (n : String) :
    ((setEntry name d es).find? (·.1 == n)).map (·.2) =
      if n = name then some d else (es.find? (·.1 == n)).map (·.2) := by
  induction es with
  | nil =>
    rcases eq_or_ne n name with rfl | h
    · simp [setEntry]
    · simp [setEntry, h, h.symm]
  | cons e es ih =>
    rw [setEntry]
    rcases eq_or_ne e.1 name with he | he
    · rw [if_pos he]
      rcases eq_or_ne n name with rfl | h
      · simp
      · simp [h, h.symm, he]
    · rw [if_neg he]
      rcases eq_or_ne e.1 n with rfl | h
      · simp [he]
      · rw [List.find?_cons_of_neg (by simpa using h), ih, List.find?_cons_of_neg (by simpa using h)]

theorem find?_set : (t.set name d).find? n = if n = name then some d else t.find? n :=
  find?_setEntry name d t.entries n

/-- Of entries with different names the order in which they are set does not matter. -/
theorem find?_setAll {es : List (String × Declaration)} (h : (es.map (·.1)).Nodup) (t : Table) (n : String) :
    (es.foldl (fun t e => t.set e.1 e.2) t).find? n = ((es.find? (·.1 == n)).map (·.2)).or (t.find? n) := by
  induction es generalizing t with
  | nil => rfl
  | cons e es ih =>
    obtain ⟨new, h⟩ := List.nodup_cons.mp h
    rw [List.foldl_cons, ih h, find?_set]
    rcases eq_or_ne n e.1 with rfl | hn
    · have later : es.find? (·.1 == e.1) = none := by
        rw [List.find?_eq_none]
        exact fun x hx hxe => new (List.mem_map.mpr ⟨x, hx, beq_iff_eq.mp hxe⟩)
      simp [later]
    · rw [if_neg hn, List.find?_cons_of_neg (by simpa using hn.symm)]

theorem find?_update : (t.update u).find? n = (u.find? n).or (t.find? n) := find?_setAll u.distinct t n

theorem find?_ofLast (h : (ds.map (·.name)).Nodup) : (ofLast ds).find? = Index.ofList ds := by
  have entries : ofLast ds = (ds.map fun d => (d.name, d)).foldl (fun t e => t.set e.1 e.2) {} := by
    rw [List.foldl_map]
    rfl
  have names : ((ds.map fun d => (d.name, d)).map (·.1)).Nodup := by rwa [List.map_map]
  funext n
  rw [entries, find?_setAll names, List.find?_map, Option.map_map]
  exact Option.or_none.trans Option.map_id'

theorem find?_add : (t.add d).find? n = (t.find? n).or (if n = d.name then some d else none) := by
  unfold add Index.knows
  split
  · rename_i known
    rcases eq_or_ne n d.name with rfl | h
    · obtain ⟨e, he⟩ := Option.isSome_iff_exists.mp known
      rw [he, Option.some_or]
    · rw [if_neg h, Option.or_none]
  · rename_i new
    rw [find?_set]
    rcases eq_or_ne n d.name with rfl | h
    · rw [Option.not_isSome_iff_eq_none.mp new, if_pos rfl, Option.none_or]
    · rw [if_neg h, if_neg h, Option.or_none]

theorem find?_addAll (ds : List Declaration) (t : Table) (n : String) :
    (ds.foldl add t).find? n = (t.find? n).or (Index.ofList ds n) := by
  induction ds generalizing t with
  | nil => exact Option.or_none.symm
  | cons d ds ih =>
    rw [List.foldl_cons, ih, find?_add, Option.or_assoc, Index.ofList_cons]
    split <;> rfl

theorem find?_ofFirst (ds : List Declaration) : (ofFirst ds).find? = Index.ofList ds :=
  funext fun n => find?_addAll ds {} n

/-! ### Entries of a table that keeps the first of each name -/

theorem setEntry_of_new {es : List (String × Declaration)} (h : name ∉ es.map (·.1)) :
    setEntry name d es = es ++ [(name, d)] := by
  induction es with
  | nil => rfl
  | cons e es ih =>
    rw [List.map_cons, List.mem_cons, not_or] at h
    rw [setEntry, if_neg (Ne.symm h.1), ih h.2, List.cons_append]

theorem find?_eq_none : t.find? n = none ↔ n ∉ t.entries.map (·.1) := by
  rw [find?, Option.map_eq_none_iff, List.find?_eq_none]
  refine ⟨?_, ?_⟩
  · rintro h mem
    obtain ⟨e, he, rfl⟩ := List.mem_map.mp mem
    exact h e he (beq_self_eq_true _)
  · rintro h e he hn
    exact h (List.mem_map.mpr ⟨e, he, beq_iff_eq.mp hn⟩)

theorem eraseDups_concat (names : List String) (n : String) :
    (names ++ [n]).eraseDups = names.eraseDups ++ if n ∈ names then [] else [n] := by
  rw [List.eraseDups_append]
  split
  · rename_i h
    simp [List.removeAll, h]
  · rename_i h
    simp [List.removeAll, h, List.eraseDups_cons]

theorem ofFirst_concat (ds : List Declaration) (d : Declaration) : ofFirst (ds ++ [d]) = (ofFirst ds).add d :=
  List.foldl_concat _ _ _ _

/-- The names in order of first occurrence, each with its first declaration. -/
theorem entries_ofFirst (ds : List Declaration) :
    (ofFirst ds).entries = (ds.map (·.name)).eraseDups.filterMap fun n => (Index.ofList ds n).map (n, ·) := by
  induction ds using List.reverseRecOn with
  | nil => rfl
  | append_singleton ds d ih =>
    have known : (ofFirst ds).find?.knows d.name ↔ d.name ∈ ds.map (·.name) := by
      rw [Index.knows, find?_ofFirst, Index.isSome_ofList]
    have same : ((ds.map (·.name)).eraseDups.filterMap fun n => (Index.ofList (ds ++ [d]) n).map (n, ·)) =
        (ofFirst ds).entries := by
      rw [ih]
      refine List.filterMap_congr fun n hn => ?_
      obtain ⟨e, he⟩ := Option.isSome_iff_exists.mp (Index.isSome_ofList.mpr (List.mem_eraseDups.mp hn))
      rw [Index.ofList_append, he, Option.some_or]
    rw [ofFirst_concat, List.map_append, List.map_singleton, eraseDups_concat, List.filterMap_append, same]
    rcases em (d.name ∈ ds.map (·.name)) with old | new
    · rw [add, if_pos (known.mpr old), if_pos old, List.filterMap_nil, List.append_nil]
    · rw [add, if_neg (mt known.mp new), if_neg new]
      have first : Index.ofList (ds ++ [d]) d.name = some d := by
        rw [Index.ofList_append, Index.ofList_eq_none.mpr new, Index.ofList_cons, if_pos rfl, Option.none_or]
      have absent : d.name ∉ (ofFirst ds).entries.map (·.1) := by
        rwa [← find?_eq_none, find?_ofFirst, Index.ofList_eq_none]
      rw [List.filterMap_cons, first]
      exact setEntry_of_new absent

theorem declarations_ofFirst (ds : List Declaration) :
    (ofFirst ds).declarations = (ds.map (·.name)).eraseDups.filterMap (Index.ofList ds) := by
  rw [declarations, entries_ofFirst, List.map_filterMap]
  refine List.filterMap_congr fun n _ => ?_
  rw [Option.map_map]
  exact Option.map_id'

theorem name_of_mem_entries {e : String × Declaration} (h : e ∈ (ofFirst ds).entries) : e.2.name = e.1 := by
  rw [entries_ofFirst] at h
  obtain ⟨n, -, he⟩ := List.mem_filterMap.mp h
  obtain ⟨d, hd, rfl⟩ := Option.map_eq_some_iff.mp he
  exact Index.name_of_ofList_eq hd

theorem names_ofFirst (ds : List Declaration) :
    (ofFirst ds).declarations.map (·.name) = (ofFirst ds).entries.map (·.1) := by
  rw [declarations, List.map_map]
  exact List.map_congr_left fun e he => name_of_mem_entries he

/-- The names of a table stand in the order of their first occurrences. -/
theorem names_eq_eraseDups (ds : List Declaration) :
    (ofFirst ds).declarations.map (·.name) = (ds.map (·.name)).eraseDups := by
  rw [names_ofFirst, entries_ofFirst, List.map_filterMap]
  refine (List.filterMap_congr fun n hn => ?_).trans List.filterMap_some
  obtain ⟨d, hd⟩ := Option.isSome_iff_exists.mp (Index.isSome_ofList.mpr (List.mem_eraseDups.mp hn))
  rw [hd]
  rfl

theorem nodup_names_ofFirst (ds : List Declaration) : ((ofFirst ds).declarations.map (·.name)).Nodup := by
  rw [names_ofFirst]
  exact (ofFirst ds).distinct

theorem mem_ofFirst_iff_ofList : d ∈ (ofFirst ds).declarations ↔ Index.ofList ds d.name = some d := by
  rw [declarations_ofFirst, List.mem_filterMap]
  refine ⟨?_, fun h => ⟨d.name, ?_, h⟩⟩
  · rintro ⟨n, -, h⟩
    rwa [Index.name_of_ofList_eq h]
  · exact List.mem_eraseDups.mpr (Index.isSome_ofList.mp (Option.isSome_of_eq_some h))

/-- The table holds a declaration just in case none of its name stands before it. -/
theorem mem_ofFirst : d ∈ (ofFirst ds).declarations ↔
    ∃ pre post, ds = pre ++ d :: post ∧ d.name ∉ pre.map (·.name) := by
  rw [mem_ofFirst_iff_ofList]
  refine ⟨fun h => ?_, ?_⟩
  · obtain ⟨-, pre, post, eq, others⟩ := List.find?_eq_some_iff_append.mp h
    refine ⟨pre, post, eq, fun mem => ?_⟩
    obtain ⟨e, he, same⟩ := List.mem_map.mp mem
    simpa [same] using others e he
  · rintro ⟨pre, post, rfl, first⟩
    rw [Index.ofList_append, Index.ofList_eq_none.mpr first, Option.none_or, Index.ofList_cons, if_pos rfl]

theorem ofList_declarations (ds : List Declaration) : Index.ofList (ofFirst ds).declarations = Index.ofList ds := by
  funext n
  rw [← find?_ofFirst ds, Index.ofList, declarations, List.find?_map, find?]
  exact congrArg _ (List.find?_congr fun e he => by rw [Function.comp_apply, name_of_mem_entries he])

theorem declarations_add (h : ¬ t.find?.knows d.name) : (t.add d).declarations = t.declarations ++ [d] := by
  have new : d.name ∉ t.entries.map (·.1) := find?_eq_none.mp (Option.not_isSome_iff_eq_none.mp h)
  have entries : (t.set d.name d).entries = t.entries ++ [(d.name, d)] := setEntry_of_new new
  rw [add, if_neg h, declarations, entries, List.map_append]
  rfl

/-- Where no name comes twice, all declarations are kept. -/
theorem declarations_of_nodup (nodup : (ds.map (·.name)).Nodup) : (ofFirst ds).declarations = ds := by
  induction ds using List.reverseRecOn with
  | nil => rfl
  | append_singleton ds d ih =>
    rw [List.map_append, List.map_singleton, List.nodup_append] at nodup
    obtain ⟨before, -, apart⟩ := nodup
    have new : d.name ∉ ds.map (·.name) := fun mem => apart _ mem _ (List.mem_singleton_self _) rfl
    have absent : ¬ (ofFirst ds).find?.knows d.name := by
      rwa [find?_ofFirst, Index.knows, Index.isSome_ofList]
    rw [ofFirst_concat, declarations_add absent, ih before]

/-- The names before a declaration that is kept are those of all declarations before it. -/
theorem names_before {before post kept kept' : List Declaration} (eq : ds = before ++ d :: post)
    (first : d.name ∉ before.map (·.name)) (table : (ofFirst ds).declarations = kept ++ d :: kept') :
    kept.map (·.name) = (before.map (·.name)).eraseDups := by
  have nodup := nodup_names_ofFirst ds
  have names := names_eq_eraseDups ds
  rw [table, List.map_append, List.map_cons] at nodup names
  obtain ⟨-, after, apart⟩ := List.nodup_append.mp nodup
  have early : d.name ∉ kept.map (·.name) := fun mem => apart _ mem _ List.mem_cons_self rfl
  have rest : (d.name :: post.map (·.name)).removeAll (before.map (·.name)) =
      d.name :: (post.map (·.name)).removeAll (before.map (·.name)) :=
    List.filter_cons_of_pos (by simpa using first)
  rw [eq, List.map_append, List.map_cons, List.eraseDups_append, rest, List.eraseDups_cons] at names
  exact ((List.append_cons_inj_of_notMem early (List.nodup_cons.mp after).1).mp names).1

theorem any_name_ofFirst (ds : List Declaration) (n : String) :
    (ofFirst ds).declarations.any (·.name == n) = (ofFirst ds).find?.knows n := by
  rw [Bool.eq_iff_iff, Index.knows, Option.isSome_iff_ne_none, Ne, find?_eq_none, not_not, ← names_ofFirst]
  simp

end Table

namespace Platform

theorem find?_table : table.find? = index := Table.find?_ofLast (by decide +kernel)

end Platform
end TypeAtlas
