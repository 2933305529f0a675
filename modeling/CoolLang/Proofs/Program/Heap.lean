import CoolLang.Program.Run
import CoolLang.Proofs.Evaluation.Reach
import CoolLang.Proofs.Evaluation.Shape

/-!
# Objects of a run

The classes may be inconsistent, and evaluation may fail: an object remains the object of one class,
with the fields that the layout of its class asks for.
-/

namespace CoolLang

variable {h : Hierarchy} {p : Program}

/-! ## Fields -/

theorem Object.isSome_get?_iff (o : Object) (x : String) :
    (o.get? x).isSome = true ↔ x ∈ o.fields.map (·.1) := by
  obtain ⟨b, fields⟩ := o
  rw [get?]
  induction fields with
  | nil => simp
  | cons field fields ih =>
      obtain ⟨y, v⟩ := field
      rw [List.lookup_cons, List.map_cons, List.mem_cons]
      by_cases hxy : x = y
      · simp [hxy]
      · have hne : (x == y) = false := beq_false_of_ne hxy
        simp only [hne, hxy, false_or]
        exact ih

theorem Blueprint.hasAttribute_iff (b : Blueprint) (x : String) :
    b.hasAttribute x = true ↔ x ∈ b.layout.map (·.name) := by
  simp [hasAttribute, List.any_eq_true, List.mem_map]

/-- The fields of an object in shape have the names of the slots. -/
theorem Object.Shaped.mem_fields_iff {o : Object} (ho : o.Shaped h) (x : String) :
    x ∈ o.fields.map (·.1) ↔ x ∈ o.blueprint.layout.map (·.name) := by
  rw [← o.isSome_get?_iff, ho.fields, o.blueprint.hasAttribute_iff]

theorem Object.Shaped.find?_eq {o : Object} (ho : o.Shaped h) :
    (ClassTable.ofHierarchy h).find? o.blueprint.name = some o.blueprint := by
  rw [ClassTable.find?_ofHierarchy_of_contains ho.known, ← ho.blueprint]

/-! ## Invariants -/

namespace Machine

theorem invariant_shaped (hp : p.classes = .ofHierarchy h) :
    Invariant p fun m => m.store.Shaped h where
  write _ hs := hs
  read hs := hs
  create hb hs := hs.create (hp ▸ hb)
  copy v hs := hs.copy v
  addCell _ hs := hs
  setCell _ _ hs := hs
  setField v ho hx hs := hs.setField ho hx v
  call _ hs := hs
  callEnd hs := hs
  construction _ _ _ _ hs := hs
  constructionEnd hs := hs

/-- The objects of one machine are those of the others. -/
theorem invariant_keepsObjects (p : Program) (m : Machine) : Invariant p m.KeepsObjects where
  write _ hm := hm
  read hm := hm
  create _ hm := hm.trans (Store.keeps_addObject _ _)
  copy v hm := hm.trans (Store.keeps_copy _ v)
  addCell v hm := hm.trans (Store.keeps_addCell _ v)
  setCell place v hm := hm.trans (Store.keeps_setCell _ place v)
  setField v _ _ hm := hm.trans (Store.keeps_setField _ _ _ v)
  call _ hm := hm
  callEnd hm := hm
  construction _ _ _ _ hm := hm
  constructionEnd hm := hm

end Machine

/-- **Objects keep their shape.** Let classes be offered in any order, whether they fit together or
not, and let anything be asked of a machine that was at rest. An object belongs to a class that is
the one of its name, its fields have the names of the slots of that class, and in every machine that
is reached later, when its construction and the calls around it have ended too, it still belongs to
that class. -/
theorem Reaches.object_keeps_shape {cs : List ClassInfo} {h : Hierarchy}
    (hh : Hierarchy.initial.offerAll cs = h) {settings : Settings} {input : Input} {m : Machine}
    (hm : Reaches (.ofHierarchy h settings) (.initial h input) m) {place : Nat} {o : Object}
    (ho : m.store.object? place = some o) :
    (Program.ofHierarchy h settings).classes.find? o.blueprint.name = some o.blueprint ∧
    (∀ x, x ∈ o.fields.map (·.1) ↔ x ∈ o.blueprint.layout.map (·.name)) ∧
    ∀ m', Reaches (.ofHierarchy h settings) m m' →
      ∃ o', m'.store.object? place = some o' ∧ o'.blueprint = o.blueprint := by
  have hnamed : h.WellNamed := hh ▸ Hierarchy.wellNamed_initial.offerAll cs
  have hshaped := hm.invariant (Machine.invariant_shaped rfl)
    (Store.shaped_initial_of_wellNamed hnamed input) place o ho
  refine ⟨hshaped.find?_eq, hshaped.mem_fields_iff, fun m' hm' => ?_⟩
  exact hm'.invariant (Machine.invariant_keepsObjects _ m) (.refl m.store) place o ho

/-- Two classes that inherit from each other and declare an attribute of the same name. The initial
value of another attribute assigns to it. -/
def Hierarchy.brood : Hierarchy :=
  initial.offerAll
    [⟨"Hen", some "Egg",
        [⟨"weight", ClassName.string, none, 0, .nowhere⟩,
          ⟨"name", ClassName.string, none, 1, .nowhere⟩], [], .nowhere⟩,
      ⟨"Egg", some "Hen",
        [⟨"age", ClassName.int, some (.assign "weight" (.int 3 .nowhere) .nowhere), 0, .nowhere⟩,
          ⟨"weight", ClassName.int, none, 1, .nowhere⟩], [], .nowhere⟩]

/-- The machine once a hen was made. -/
def Machine.brooding : Machine :=
  ((Request.instantiate "Hen" .nowhere).run (.ofHierarchy .brood {}) 3).final (.initial .brood [])

def Object.hen : Object :=
  ⟨.ofClass .brood "Hen", [("age", .int 3), ("weight", .int 3), ("name", .str "")]⟩

theorem Reaches.object_keeps_shape_hen :
    Reaches (.ofHierarchy .brood {}) (.initial .brood []) .brooding ∧
    Machine.brooding.store.object? 2 = some .hen ∧
    (Program.ofHierarchy .brood {}).classes.find? "Hen" = some Object.hen.blueprint ∧
    (∀ x, x ∈ ["age", "weight", "name"] ↔ x ∈ Object.hen.blueprint.layout.map (·.name)) ∧
    ∀ m', Reaches (.ofHierarchy .brood {}) .brooding m' →
      ∃ o', m'.store.object? 2 = some o' ∧ o'.blueprint = Object.hen.blueprint := by
  have hreaches : Reaches (.ofHierarchy .brood {}) (.initial .brood []) .brooding :=
    .done .start 3 (.instantiate "Hen" .nowhere)
  have hhen : Machine.brooding.store.object? 2 = some .hen := by rfl
  exact ⟨hreaches, hhen, hreaches.object_keeps_shape rfl hhen⟩

end CoolLang
