import TypeAtlas.Proofs.Extraction.Entries
import TypeAtlas.Proofs.Extraction.Supertypes
import TypeAtlas.Proofs.Lists

/-! Which classes of a model are throwable. The flag of each class comes from a walk of its own over its
superclasses; the walks agree, so a class is throwable if its superclass in the model is, and a class
right below the exception root always is. -/

namespace TypeAtlas

open Extraction

namespace Classifier

variable {c : Classifier} {s s' : Session} {d : Declaration} {e : Entry}

theorem gives_variant_class {v : Variant} (h : Gives (c.variant d) s v s') (hv : v.kind = .classType) :
    d.kind = .known .classType ∧ ∃ isAbstract found superclass, v = .ofClass isAbstract found superclass ∧
      c.Descends c.settings.maxDepth d found := by
  unfold variant at h
  split at h
  · rename_i hk
    obtain ⟨found, s₁, hf, h⟩ := gives_bind.mp h
    obtain ⟨superclass, s₂, -, hp⟩ := gives_bind.mp h
    obtain ⟨rfl, -⟩ := gives_pure.mp hp
    exact ⟨hk, _, found, superclass, rfl, gives_isThrowable.mp ⟨s₁, hf⟩⟩
  · obtain ⟨rfl, -⟩ := gives_pure.mp h
    cases hv
  · obtain ⟨rfl, -⟩ := gives_pure.mp h
    cases hv
  · exact absurd h gives_throw

/-- The flag of a class says where the walk from its declaration ends, and its superclass is the first
step of this walk. -/
theorem Classified.descends (h : c.Classified d e) (he : e.kind = .classType) :
    c.Descends c.settings.maxDepth d e.isThrowable ∧
      d.superclass.mapM (Resolution.qualifiedName (c.provider.context d)) = .ok (e.superclass?.map (·.fullName)) := by
  obtain ⟨s, s', h⟩ := h
  obtain ⟨v, _, _, _, _, _, _, _, _, hv, -, -, -, -, rfl⟩ := gives_classify.mp h
  obtain ⟨hk, isAbstract, found, superclass, rfl, hd⟩ := gives_variant_class hv he
  exact ⟨hd, superclass_of_classify c hk h⟩

theorem Descends.unique {n : Nat} {found found' : Bool} (h : c.Descends n d found) (h' : c.Descends n d found') :
    found = found' := by
  obtain ⟨s₁, hs⟩ := lineage_of_descends h {}
  obtain ⟨s₂, hs'⟩ := lineage_of_descends h' {}
  exact Option.some.inj (hs.unique hs').1

/-- The first link of a walk: it ends there, or goes on from the superclass with fewer steps to the same end. -/
theorem Descends.first_link {n : Nat} {found : Bool} (h : c.Descends n d found) {superclass : Option String}
    (hs : d.superclass.mapM (Resolution.qualifiedName (c.provider.context d)) = .ok superclass) :
    (superclass = none → found = false) ∧
    ∀ name, superclass = some name →
      (name = c.settings.exceptionRoot → found = true) ∧
      (name ≠ c.settings.exceptionRoot →
        (c.provider.find? name = none → found = false) ∧
        ∀ d', c.provider.find? name = some d' → ∃ k ≤ n, c.Descends k d' found) := by
  -- the superclass of the entry is the name by which the walk goes on
  have named {w name : String} (hw : d.superclass = some w)
      (hn : Resolution.qualifiedName (c.provider.context d) w = .ok name) : superclass = some name := by
    rw [hw, Option.mapM_some, hn] at hs
    exact (Except.ok.inj hs).symm
  cases h with
  | top hw =>
    rw [hw, Option.mapM_none] at hs
    cases hs
    exact ⟨fun _ => rfl, nofun⟩
  | root hw name =>
    cases named hw name
    exact ⟨nofun, fun name hname => ⟨fun _ => rfl, fun ne => absurd (Option.some.inj hname).symm ne⟩⟩
  | unknown hw name ne unknown =>
    cases named hw name
    refine ⟨fun _ => rfl, fun name hname => ?_⟩
    cases hname
    exact ⟨fun root => absurd root ne, fun _ => ⟨fun _ => rfl, fun d' known => absurd (unknown.symm.trans known) nofun⟩⟩
  | @up k _ d' _ _ _ hw name ne known rest =>
    cases named hw name
    refine ⟨nofun, fun name hname => ?_⟩
    cases hname
    refine ⟨fun root => absurd root ne, fun _ => ⟨fun unknown => absurd (known.symm.trans unknown) nofun, ?_⟩⟩
    intro d₁ hd₁
    cases known.symm.trans hd₁
    exact ⟨k, Nat.le_succ k, rest⟩

end Classifier

namespace Extraction

variable {p : Provider} {settings : Settings} {m : Model}

/-- Every entry of a model is what the declaration known by its name becomes. -/
theorem classified_of_mem_entries (own : ∀ ds, p.types = .ok ds → ∀ d ∈ ds, p.find? d.name = some d)
    (named : ∀ n d, p.find? n = some d → d.name = n) (h : result settings (some p) = .ok m) :
    ∀ e ∈ m.entries, ∃ d, p.find? e.fullName = some d ∧ (Classifier.ofSettings p settings).Classified d e := by
  obtain ⟨s', h⟩ := result_eq_ok.mp h
  obtain ⟨-, ds, m₁, s₁, hds, hm, hx⟩ := gives_extract_iff.mp h
  obtain ⟨es, hes, -, -, rfl, -⟩ := Classifier.classified_of_addTypes hm
  have internal : ∀ e ∈ es, ∃ d, p.find? e.fullName = some d ∧ (Classifier.ofSettings p settings).Classified d e := by
    intro e he
    obtain ⟨d, hd, hde⟩ := exists_left_of_forall₂ hes he
    exact ⟨d, by rw [hde.fullName_eq, own ds hds d hd], hde⟩
  rcases hx with ⟨-, rfl, -⟩ | ⟨-, m₂, added, hx, rfl⟩
  · intro e he
    exact internal e (by simpa [Model.entries, Model.freeze] using he)
  · obtain ⟨stubs, rfl, hstubs, -⟩ := Classifier.addStubs_sustained (.refl _) (fun _ => rfl) rfl hx
    intro e he
    have he : e ∈ es ∨ e ∈ stubs := by simpa [Model.entries, Model.freeze] using he
    rcases he with he | he
    · exact internal e he
    · obtain ⟨n, d, hd, hde⟩ := hstubs e he
      exact ⟨d, by rw [hde.fullName_eq, named n d hd]; exact hd, hde⟩

/-- A class without superclass is not throwable, one whose superclass is the exception root is, and any
other is throwable just in case its superclass is: if that is a class of the model it has the same flag, and
if the provider does not know it neither is throwable. -/
theorem throwable_iff_superclass (own : ∀ ds, p.types = .ok ds → ∀ d ∈ ds, p.find? d.name = some d)
    (named : ∀ n d, p.find? n = some d → d.name = n) (h : result settings (some p) = .ok m) :
    ∀ e ∈ m.entries, e.kind = .classType →
      (e.superclass? = none → e.isThrowable = false) ∧
      ∀ t, e.superclass? = some t →
        (t.fullName = settings.exceptionRoot → e.isThrowable = true) ∧
        (t.fullName ≠ settings.exceptionRoot →
          (∀ f ∈ m.entries, f.fullName = t.fullName → f.kind = .classType → e.isThrowable = f.isThrowable) ∧
          (p.find? t.fullName = none → e.isThrowable = false)) := by
  intro e he hk
  obtain ⟨d, hd, hde⟩ := classified_of_mem_entries own named h e he
  obtain ⟨walk, superclass⟩ := hde.descends hk
  obtain ⟨top, link⟩ := walk.first_link superclass
  refine ⟨fun none => top (by rw [none]; rfl), fun t ht => ?_⟩
  obtain ⟨root, rest⟩ := link t.fullName (by rw [ht]; rfl)
  refine ⟨root, fun ne => ⟨?_, (rest ne).1⟩⟩
  intro f hf name hkf
  obtain ⟨d', hd', hdf⟩ := classified_of_mem_entries own named h f hf
  rw [name] at hd'
  obtain ⟨k, hk, walk'⟩ := (rest ne).2 d' hd'
  exact (walk'.mono (.refl _) hk).unique (hdf.descends hkf).1

/-- A class of the project below one from elsewhere, which is right below `E`. -/
def failing : Provider :=
  Provider.ofIndex "failing" [{ name := "A", superclass := some "QB;" }]
    (Index.ofList [{ name := "A", superclass := some "QB;" }, { name := "B", superclass := some "QE;" }])

theorem throwable_iff_superclass_failing :
    (∀ ds, failing.types = .ok ds → ∀ d ∈ ds, failing.find? d.name = some d) ∧
    (∀ n d, failing.find? n = some d → d.name = n) ∧
    ∃ m, result { exceptionRoot := "E" } (some failing) = .ok m ∧ ∃ e ∈ m.entries, ∃ f ∈ m.entries,
      e.kind = .classType ∧ f.kind = .classType ∧ e.superclass?.map (·.fullName) = some f.fullName ∧
      f.superclass?.map (·.fullName) = some "E" ∧ f.isThrowable = true ∧ e.isThrowable = true := by
  have own : ∀ ds, failing.types = .ok ds → ∀ d ∈ ds, failing.find? d.name = some d := by
    intro ds hds d hd
    cases hds
    rw [List.mem_singleton.mp hd]
    decide
  have named : ∀ n d, failing.find? n = some d → d.name = n := fun n d h => name_of_ofList h
  have hx : (result { exceptionRoot := "E" } (some failing)).toOption.map
      (fun m => m.entries.map fun e => (e.kind, e.fullName, e.superclass?.map (·.fullName))) =
      some [(.classType, "A", some "B"), (.classType, "B", some "E")] := by cbv
  obtain ⟨m, h, hx⟩ := exists_ok_of_toOption hx
  obtain ⟨e, rest, hm, he, hrest⟩ := List.map_eq_cons_iff.mp hx
  obtain ⟨f, rest', rfl, hf, -⟩ := List.map_eq_cons_iff.mp hrest
  have mem_e : e ∈ m.entries := by simp [hm]
  have mem_f : f ∈ m.entries := by simp [hm]
  simp only [Prod.mk.injEq] at he hf
  obtain ⟨ke, -, se⟩ := he
  obtain ⟨kf, nf, sf⟩ := hf
  obtain ⟨t, ht, name⟩ := Option.map_eq_some_iff.mp se
  obtain ⟨u, hu, root⟩ := Option.map_eq_some_iff.mp sf
  have hfault : f.isThrowable = true := ((throwable_iff_superclass own named h f mem_f kf).2 u hu).1 root
  have hfailure := (((throwable_iff_superclass own named h e mem_e ke).2 t ht).2 (by rw [name]; decide)).1 f mem_f
    (nf.trans name.symm) kf
  exact ⟨own, named, m, h, e, mem_e, f, mem_f, ke, kf, by rw [se, nf], sf, hfault, hfailure.trans hfault⟩

end Extraction
end TypeAtlas
