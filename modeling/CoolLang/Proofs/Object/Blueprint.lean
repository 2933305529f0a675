import CoolLang.Object.Blueprint
import CoolLang.Proofs.Hierarchy.Chain

/-!
# Blueprints of a hierarchy

Where the methods and the slots of a blueprint come from.
-/

namespace CoolLang

namespace Blueprint

/-- The method that a call finds, and the class that declares it. -/
theorem findMethod?_eq_some {b : Blueprint} {name : String} {arity : Nat} {m : Method}
    (h : b.findMethod? name arity = some m) :
    ∃ c ∈ b.ancestors, c.method? name = some m ∧ m.arity = arity := by
  obtain ⟨c, hc, hm⟩ := List.exists_of_findSome?_eq_some h
  rw [Option.filter_eq_some_iff] at hm
  exact ⟨c, hc, hm.1, by simpa using hm.2⟩

theorem mem_extendLayout {layout attributes : List Attribute} {slot : Attribute}
    (h : slot ∈ extendLayout layout attributes) : slot ∈ layout ∨ slot ∈ attributes := by
  induction attributes generalizing layout with
  | nil => exact Or.inl h
  | cons a attributes ih =>
      rw [extendLayout, List.foldl_cons] at h
      rcases ih h with h | h
      · split at h
        · exact Or.inl h
        · rcases List.mem_append.mp h with h | h
          · exact Or.inl h
          · rw [List.mem_singleton] at h
            exact Or.inr (h ▸ List.mem_cons_self)
      · exact Or.inr (List.mem_cons_of_mem _ h)

/-- Every slot was declared by a class of the chain. -/
theorem mem_layoutOf {ancestors : List ClassInfo} {slot : Attribute}
    (h : slot ∈ layoutOf ancestors) : ∃ c ∈ ancestors, slot ∈ c.attributes := by
  rw [layoutOf, List.foldl_reverse] at h
  induction ancestors with
  | nil => cases h
  | cons c ancestors ih =>
      rw [List.foldr_cons] at h
      rcases mem_extendLayout h with h | h
      · obtain ⟨d, hd, hslot⟩ := ih h
        exact ⟨d, List.mem_cons_of_mem _ hd, hslot⟩
      · exact ⟨c, List.mem_cons_self, h⟩

/-- The slot of a name in an extended layout: one that was there already comes first. -/
theorem find?_extendLayout (layout attributes : List Attribute) (x : String) :
    (extendLayout layout attributes).find? (·.name == x) =
      (layout.find? (·.name == x)).or (attributes.find? (·.name == x)) := by
  induction attributes generalizing layout with
  | nil => exact (Option.or_none).symm
  | cons a attributes ih =>
      rw [extendLayout, List.foldl_cons]
      refine (ih _).trans ?_
      by_cases hx : a.name = x
      · by_cases hold : layout.any (·.name == a.name) = true
        · -- the name has a slot, so the new attribute is left out
          rw [if_pos hold]
          have hsome : (layout.find? (·.name == x)).isSome = true := by
            rw [List.find?_isSome]
            simpa [hx] using hold
          obtain ⟨slot, hslot⟩ := Option.isSome_iff_exists.mp hsome
          rw [hslot]
          rfl
        · rw [if_neg hold, List.find?_append, Option.or_assoc]
          simp [hx]
      · have hfind : (a :: attributes).find? (·.name == x) = attributes.find? (·.name == x) := by
          simp [hx]
        rw [hfind]
        split
        · rfl
        · rw [List.find?_append]
          simp [hx]

theorem layoutOf_cons (c : ClassInfo) (cs : List ClassInfo) :
    layoutOf (c :: cs) = extendLayout (layoutOf cs) c.attributes := by
  simp [layoutOf]

theorem find?_layoutOf_cons (c : ClassInfo) (cs : List ClassInfo) (x : String) :
    (layoutOf (c :: cs)).find? (·.name == x) =
      ((layoutOf cs).find? (·.name == x)).or (c.attribute? x) := by
  rw [layoutOf_cons, find?_extendLayout, ClassInfo.attribute?]

theorem nodup_extendLayout {layout attributes : List Attribute}
    (hnodup : (layout.map (·.name)).Nodup) :
    ((extendLayout layout attributes).map (·.name)).Nodup := by
  induction attributes generalizing layout with
  | nil => exact hnodup
  | cons a attributes ih =>
      rw [extendLayout, List.foldl_cons]
      refine ih ?_
      split
      · exact hnodup
      · rename_i hnew
        rw [List.map_append, List.nodup_append]
        refine ⟨hnodup, by simp, ?_⟩
        intro x hx y hy hxy
        obtain ⟨b, hb, rfl⟩ := List.mem_map.mp hx
        rw [List.map_singleton, List.mem_singleton] at hy
        exact hnew (List.any_eq_true.mpr ⟨b, hb, by simpa using hxy.trans hy⟩)

/-- No two slots share a name. -/
theorem nodup_layoutOf (cs : List ClassInfo) : ((layoutOf cs).map (·.name)).Nodup := by
  induction cs with
  | nil => exact List.nodup_nil
  | cons c cs ih =>
      rw [layoutOf_cons]
      exact nodup_extendLayout ih

theorem exists_of_distance? {b : Blueprint} {ancestor : String} {distance : Nat}
    (hd : b.distance? ancestor = some distance) : ∃ c ∈ b.ancestors, c.name = ancestor := by
  rw [distance?, List.findIdx?_eq_some_iff_getElem] at hd
  obtain ⟨hlt, hname, -⟩ := hd
  exact ⟨_, List.getElem_mem hlt, by simpa using hname⟩

theorem hasAttribute_of_mem {b : Blueprint} {slot : Attribute} (hslot : slot ∈ b.layout) :
    b.hasAttribute slot.name = true :=
  List.any_eq_true.mpr ⟨slot, hslot, beq_self_eq_true _⟩

theorem hasAttribute_eq (b : Blueprint) (x : String) :
    b.hasAttribute x = (b.layout.find? (·.name == x)).isSome := by
  rw [hasAttribute, Bool.eq_iff_iff, List.any_eq_true, List.find?_isSome]

end Blueprint

namespace ClassTable

theorem find?_ofHierarchy_eq_some {h : Hierarchy} {name : String} {b : Blueprint}
    (hb : (ofHierarchy h).find? name = some b) :
    h.contains name = true ∧ b = Blueprint.ofClass h name := by
  obtain ⟨c, hc, rfl⟩ := List.mem_map.mp (List.mem_of_find?_eq_some hb)
  have hname : c.name = name := by simpa [Blueprint.ofClass] using List.find?_some hb
  refine ⟨?_, by rw [hname]⟩
  rw [Hierarchy.contains, Hierarchy.find?, List.find?_isSome]
  exact ⟨c, hc, by simp [hname]⟩

theorem find?_ofHierarchy_of_contains {h : Hierarchy} {name : String}
    (hname : h.contains name = true) :
    (ofHierarchy h).find? name = some (Blueprint.ofClass h name) := by
  rw [Hierarchy.contains, Hierarchy.find?, List.find?_isSome] at hname
  obtain ⟨c, hc, hcn⟩ := hname
  have hsome : ((ofHierarchy h).find? name).isSome = true := by
    rw [find?, List.find?_isSome]
    exact ⟨_, List.mem_map.mpr ⟨c, hc, rfl⟩, hcn⟩
  obtain ⟨b, hb⟩ := Option.isSome_iff_exists.mp hsome
  rw [hb, (find?_ofHierarchy_eq_some hb).2]

theorem find?_ofHierarchy (h : Hierarchy) (name : String) :
    (ofHierarchy h).find? name =
      if h.contains name = true then some (Blueprint.ofClass h name) else none := by
  split
  · exact find?_ofHierarchy_of_contains ‹_›
  · cases hb : (ofHierarchy h).find? name with
    | none => rfl
    | some b => exact absurd (find?_ofHierarchy_eq_some hb).1 ‹_›

end ClassTable

end CoolLang
