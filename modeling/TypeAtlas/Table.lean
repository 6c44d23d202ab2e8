import TypeAtlas.Declaration

/-! Tables of declarations. A name has at most one entry, and the entries stand in the order in which
their names first came in: a later entry of a name takes the place of the earlier one. -/

namespace TypeAtlas

namespace Table

def setEntry (name : String) (d : Declaration) : List (String × Declaration) → List (String × Declaration)
  | [] => [(name, d)]
  | e :: es => if e.1 = name then (name, d) :: es else e :: setEntry name d es

theorem map_fst_setEntry (name : String) (d : Declaration) (es : List (String × Declaration)) :
    (setEntry name d es).map (·.1) =
      if name ∈ es.map (·.1) then es.map (·.1) else es.map (·.1) ++ [name] := by
  induction es with
  | nil => rfl
  | cons e es ih =>
    rw [setEntry]
    split
    · rename_i h
      simp [h]
    · rename_i h
      rw [List.map_cons, ih]
      split <;> simp_all [eq_comm]

theorem nodup_setEntry {name : String} {d : Declaration} {es : List (String × Declaration)}
    (h : (es.map (·.1)).Nodup) : ((setEntry name d es).map (·.1)).Nodup := by
  rw [map_fst_setEntry]
  split
  · exact h
  · rename_i new
    exact List.nodup_append.mpr ⟨h, by simp, fun a ha b hb hab => new (List.mem_singleton.mp hb ▸ hab ▸ ha)⟩

end Table

structure Table where
  entries : List (String × Declaration) := []
  distinct : (entries.map (·.1)).Nodup := by exact List.nodup_nil
  deriving DecidableEq

namespace Table

def declarations (t : Table) : List Declaration := t.entries.map (·.2)

def find? (t : Table) : Index := fun name => (t.entries.find? (·.1 == name)).map (·.2)

def set (t : Table) (name : String) (d : Declaration) : Table := ⟨setEntry name d t.entries, nodup_setEntry t.distinct⟩

/-- Sets the entry of a declaration's name, unless there is one. -/
def add (t : Table) (d : Declaration) : Table := if t.find?.knows d.name then t else t.set d.name d

def update (t u : Table) : Table := u.entries.foldl (fun t e => t.set e.1 e.2) t

def ofFirst (ds : List Declaration) : Table := ds.foldl add {}

def ofLast (ds : List Declaration) : Table := ds.foldl (fun t d => t.set d.name d) {}

end Table
end TypeAtlas
