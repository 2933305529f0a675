import CoolLang.Evaluation.Machine
import CoolLang.Proofs.Object.Store
import CoolLang.Proofs.Typing.Program

/-!
# Typed stores

What it means that a value fits a type, that the attributes of objects and the cells of local
variables hold values that fit their types, and that an environment agrees with a scope. Each
operation on the store keeps this, given values that fit.
-/

namespace CoolLang

/-- A value fits a type if its class conforms to it. The void fits every type whose variables can be
without a value. -/
inductive Value.Fits (h : Hierarchy) (s : Store) : Value → String → Prop where
  | void {T : String} (hT : T ∉ ClassName.finals) : Fits h s .void T
  | ofClass {v : Value} {D T : String} (hv : v.className? s = some D)
      (hDT : h.conforms D T = true) : Fits h s v T

/-- An object has the shape of its class, and its attributes hold values that fit. -/
structure Object.WellTyped (h : Hierarchy) (s : Store) (o : Object) : Prop where
  known : h.contains o.blueprint.name = true
  ordinary : o.blueprint.name ∉ ClassName.finals
  blueprint : o.blueprint = Blueprint.ofClass h o.blueprint.name
  absent : ∀ {x}, h.findAttribute? o.blueprint.name x = none → o.get? x = none
  present : ∀ {x owner a}, h.findAttribute? o.blueprint.name x = some (owner, a) →
    ∃ v, o.get? x = some v ∧ v.Fits h s a.typeName

/-- The objects are well typed, the cells hold values that fit `types`, and the two objects that
every run shares are in their places. -/
structure Store.WellTyped (h : Hierarchy) (types : List String) (s : Store) : Prop where
  objects : ∀ {place o}, s.object? place = some o → o.WellTyped h s
  size : s.cells.size = types.length
  cells : ∀ {place T}, types[place]? = some T → ∃ v, s.cell? place = some v ∧ v.Fits h s T
  root : (Value.object Machine.rootObject).className? s = some ClassName.object
  io : (Value.object Machine.ioObject).className? s = some ClassName.io

/-- In a feature of class `C`, where local names have the types in `Γ`: `self` is an object of a
class at or below `C`, and the local names are those of `Γ`, in cells of their types. -/
structure Environment.WellTyped (h : Hierarchy) (C : String) (Γ : Scope) (types : List String)
    (s : Store) (env : Environment) : Prop where
  self : ∃ place D, env.self = .object place ∧ env.self.className? s = some D ∧
    h.conforms D C = true
  absent : ∀ {x}, Γ.typeOf? x = none → env.place? x = none
  present : ∀ {x T}, Γ.typeOf? x = some T →
    ∃ place, env.place? x = some place ∧ types[place]? = some T

variable {h : Hierarchy} {s s' : Store} {types : List String}

namespace Value

variable {v : Value} {S T : String}

theorem Fits.keeps (hv : v.Fits h s T) (hkeeps : s.Keeps s') : v.Fits h s' T := by
  cases hv with
  | void hT => exact .void hT
  | ofClass hv hDT => exact .ofClass (className?_of_keeps hkeeps hv) hDT

/-- Subsumption. -/
theorem Fits.conforms (ht : h.IsTree) (hv : v.Fits h s S) (hST : h.conforms S T = true) :
    v.Fits h s T := by
  cases hv with
  | void hS => exact .void (ht.not_final_of_conforms hST hS)
  | ofClass hv hDS => exact .ofClass hv (ht.conforms_trans hDS hST)

/-- Arguments whose types conform to those of the formals fit them. -/
theorem fits_formals (ht : h.IsTree) {values : List Value} {types : List String}
    {formals : List Parameter} (hvalues : List.Forall₂ (fun v T => v.Fits h s T) values types)
    (hconf : List.Forall₂ (fun S f => h.conforms S f.typeName = true) types formals) :
    List.Forall₂ (fun v T => v.Fits h s T) values (formals.map (·.typeName)) := by
  induction hvalues generalizing formals with
  | nil =>
      cases hconf
      exact .nil
  | cons hv _ ih =>
      cases hconf with
      | cons hT hrest => exact .cons (hv.conforms ht hT) (ih hrest)

theorem fits_int (n : Int64) : (Value.int n).Fits h s ClassName.int :=
  .ofClass rfl (h.conforms_self _)

theorem fits_str (text : String) : (Value.str text).Fits h s ClassName.string :=
  .ofClass rfl (h.conforms_self _)

theorem fits_bool (b : Bool) : (Value.bool b).Fits h s ClassName.bool :=
  .ofClass rfl (h.conforms_self _)

/-- What a variable holds before anything is assigned to it fits its type. -/
theorem fits_defaultFor (T : String) : (Value.defaultFor T).Fits h s T := by
  unfold defaultFor
  split
  · rename_i hT
    exact hT ▸ fits_int 0
  · rename_i hint
    split
    · rename_i hT
      exact hT ▸ fits_str ""
    · rename_i hstring
      split
      · rename_i hT
        exact hT ▸ fits_bool false
      · rename_i hbool
        refine .void ?_
        simp [ClassName.finals, hint, hstring, hbool]

/-- A value of a final type has that very class. -/
theorem Fits.className?_eq (ht : h.IsTree) (hv : v.Fits h s T) (hT : T ∈ ClassName.finals) :
    v.className? s = some T := by
  cases hv with
  | void hnot => exact absurd hT hnot
  | ofClass hv hDT => rw [hv, ht.eq_of_conforms_final hDT hT]

/-- The class of a value is a known one if those of the objects are. -/
theorem contains_of_className? (ht : h.IsTree)
    (hobjects : ∀ place o, s.object? place = some o → h.contains o.blueprint.name = true)
    {D : String} (hv : v.className? s = some D) : h.contains D = true := by
  have hbuiltin : ∀ c ∈ Builtin.classes, h.contains c.name = true := fun c hc =>
    Hierarchy.contains_of_mem (ht.builtin c hc)
  cases v with
  | int n => cases hv; exact hbuiltin Builtin.int (by simp [Builtin.classes])
  | str text => cases hv; exact hbuiltin Builtin.string (by simp [Builtin.classes])
  | bool b => cases hv; exact hbuiltin Builtin.bool (by simp [Builtin.classes])
  | void => cases hv
  | object place =>
      simp only [className?, Option.map_eq_some_iff] at hv
      obtain ⟨o, ho, rfl⟩ := hv
      exact hobjects place o ho

section

variable (ht : h.IsTree) (hs : s.WellTyped h types)
include ht hs

theorem Fits.not_object (hT : T ∈ ClassName.finals) (hv : v.Fits h s T) (place : Nat) :
    v ≠ .object place := by
  rintro rfl
  have hclass := hv.className?_eq ht hT
  simp only [className?, Option.map_eq_some_iff] at hclass
  obtain ⟨o, ho, rfl⟩ := hclass
  exact (hs.objects ho).ordinary hT

theorem Fits.exists_int (hv : v.Fits h s ClassName.int) : ∃ n, v = .int n := by
  have hclass := hv.className?_eq ht (by decide)
  cases v with
  | int n => exact ⟨n, rfl⟩
  | object place => exact absurd rfl (hv.not_object ht hs (by decide) place)
  | _ => simp [className?, ClassName.int, ClassName.string, ClassName.bool] at hclass

theorem Fits.exists_str (hv : v.Fits h s ClassName.string) : ∃ text, v = .str text := by
  have hclass := hv.className?_eq ht (by decide)
  cases v with
  | str text => exact ⟨text, rfl⟩
  | object place => exact absurd rfl (hv.not_object ht hs (by decide) place)
  | _ => simp [className?, ClassName.int, ClassName.string, ClassName.bool] at hclass

theorem Fits.exists_bool (hv : v.Fits h s ClassName.bool) : ∃ b, v = .bool b := by
  have hclass := hv.className?_eq ht (by decide)
  cases v with
  | bool b => exact ⟨b, rfl⟩
  | object place => exact absurd rfl (hv.not_object ht hs (by decide) place)
  | _ => simp [className?, ClassName.int, ClassName.string, ClassName.bool] at hclass

end

end Value

/-! ## Objects -/

namespace Object

theorem WellTyped.keeps {o : Object} (ho : o.WellTyped h s) (hkeeps : s.Keeps s') :
    o.WellTyped h s' := by
  refine ⟨ho.known, ho.ordinary, ho.blueprint, ho.absent, fun ha => ?_⟩
  obtain ⟨v, hv, hfits⟩ := ho.present ha
  exact ⟨v, hv, hfits.keeps hkeeps⟩

theorem lookup_map_eq_find? (slots : List Attribute) (x : String) :
    (slots.map fun slot => (slot.name, Value.defaultFor slot.typeName)).lookup x =
      (slots.find? (·.name == x)).map (.defaultFor ·.typeName) := by
  induction slots with
  | nil => rfl
  | cons slot slots ih =>
      rw [List.map_cons, List.lookup_cons, List.find?_cons]
      by_cases hx : slot.name = x
      · simp [hx]
      · have hx' : (x == slot.name) = false := beq_false_of_ne (Ne.symm hx)
        have hx'' : (slot.name == x) = false := beq_false_of_ne hx
        rw [hx', hx'']
        exact ih

/-- A new object is well typed: all its attributes have their default values. -/
theorem wellTyped_ofBlueprint (hwt : h.WellTyped) {D : String} (hD : h.contains D = true)
    (hord : D ∉ ClassName.finals) : (Object.ofBlueprint (.ofClass h D)).WellTyped h s := by
  have hget : ∀ x, (Object.ofBlueprint (.ofClass h D)).get? x =
      (h.findAttribute? D x).map (.defaultFor ·.2.typeName) := by
    intro x
    rw [get?, ofBlueprint, lookup_map_eq_find?, hwt.find?_layout hD, Option.map_map]
    rfl
  refine ⟨hD, hord, rfl, fun {x} hx => ?_, fun {x owner a} ha => ?_⟩
  · rw [hget, show h.findAttribute? D x = none from hx, Option.map_none]
  · refine ⟨_, by rw [hget, show h.findAttribute? D x = some (owner, a) from ha]; rfl, ?_⟩
    exact Value.fits_defaultFor a.typeName

theorem WellTyped.set {o : Object} (ho : o.WellTyped h s) {x owner : String} {a : Attribute}
    {v : Value} (ha : h.findAttribute? o.blueprint.name x = some (owner, a))
    (hv : v.Fits h s a.typeName) : (o.set x v).WellTyped h s := by
  refine ⟨ho.known, ho.ordinary, ho.blueprint, fun {y} hy => ?_, fun {y owner' a'} hy => ?_⟩
  · have hne : y ≠ x := by
      rintro rfl
      exact absurd (hy.symm.trans ha) (by simp)
    rw [get?_set_of_ne _ _ hne]
    exact ho.absent hy
  · by_cases hyx : y = x
    · subst hyx
      cases (show some (owner', a') = some (owner, a) from hy.symm.trans ha)
      exact ⟨v, get?_set_self _ _ _, hv⟩
    · rw [get?_set_of_ne _ _ hyx]
      exact ho.present hy

theorem WellTyped.hasAttribute_eq (hwt : h.WellTyped) {o : Object} (ho : o.WellTyped h s)
    (x : String) :
    o.blueprint.hasAttribute x = (h.findAttribute? o.blueprint.name x).isSome := by
  rw [← hwt.hasAttribute_eq ho.known x, ← ho.blueprint]

end Object

/-! ## Stores -/

namespace Store

variable {v : Value} {T : String}

theorem WellTyped.contains_className? (hs : s.WellTyped h types) (ht : h.IsTree) {D : String}
    (hv : v.className? s = some D) : h.contains D = true :=
  Value.contains_of_className? ht (fun _ _ ho => (hs.objects ho).known) hv

theorem WellTyped.addCell (hs : s.WellTyped h types) (hv : v.Fits h s T) :
    (s.addCell v).WellTyped h (types ++ [T]) := by
  have hkeeps := s.keeps_addCell v
  refine ⟨fun ho => (hs.objects ho).keeps hkeeps, by simp [Store.addCell, hs.size], ?_,
    hs.root, hs.io⟩
  intro place T' hT'
  by_cases hplace : place < types.length
  · rw [List.getElem?_append_left hplace] at hT'
    obtain ⟨w, hw, hfits⟩ := hs.cells hT'
    refine ⟨w, ?_, hfits.keeps hkeeps⟩
    rw [cell?_addCell_of_lt _ _ (by rw [hs.size]; exact hplace)]
    exact hw
  · have hlt := (List.getElem?_eq_some_iff.mp hT').1
    rw [List.length_append, List.length_singleton] at hlt
    have heq : place = s.cells.size := by rw [hs.size]; omega
    rw [heq, hs.size, List.getElem?_concat_length] at hT'
    cases hT'
    exact ⟨v, by rw [heq]; exact s.cell?_addCell_size v, hv.keeps hkeeps⟩

theorem WellTyped.setCell (hs : s.WellTyped h types) {place : Nat}
    (hplace : types[place]? = some T) (hv : v.Fits h s T) :
    (s.setCell place v).WellTyped h types := by
  have hkeeps := s.keeps_setCell place v
  refine ⟨fun ho => (hs.objects ho).keeps hkeeps, by simp [Store.setCell, hs.size], ?_,
    hs.root, hs.io⟩
  intro other T' hT'
  by_cases hother : other = place
  · subst hother
    cases hplace.symm.trans hT'
    have hlt := (List.getElem?_eq_some_iff.mp hT').1
    exact ⟨v, cell?_setCell_self (by rw [hs.size]; exact hlt), hv.keeps hkeeps⟩
  · obtain ⟨w, hw, hfits⟩ := hs.cells hT'
    exact ⟨w, by rw [cell?_setCell_of_ne _ _ hother]; exact hw, hfits.keeps hkeeps⟩

theorem WellTyped.addObject (hs : s.WellTyped h types) {new : Object}
    (hnew : new.WellTyped h s) : (s.addObject new).WellTyped h types := by
  have hkeeps := s.keeps_addObject new
  refine ⟨fun ho => ?_, hs.size, ?_, Value.className?_of_keeps hkeeps hs.root,
    Value.className?_of_keeps hkeeps hs.io⟩
  · rcases object?_addObject_cases ho with ho | ⟨-, rfl⟩
    · exact (hs.objects ho).keeps hkeeps
    · exact hnew.keeps hkeeps
  · intro place T' hT'
    obtain ⟨w, hw, hfits⟩ := hs.cells hT'
    exact ⟨w, hw, hfits.keeps hkeeps⟩

theorem WellTyped.setField (hs : s.WellTyped h types) {place : Nat} {o : Object}
    (ho : s.object? place = some o) {x owner : String} {a : Attribute}
    (ha : h.findAttribute? o.blueprint.name x = some (owner, a)) (hv : v.Fits h s a.typeName) :
    (s.setField place x v).WellTyped h types := by
  have hkeeps := s.keeps_setField place x v
  refine ⟨fun ho' => ?_, hs.size, ?_, Value.className?_of_keeps hkeeps hs.root,
    Value.className?_of_keeps hkeeps hs.io⟩
  · rcases object?_setField_cases ho' with ⟨-, ho'⟩ | ⟨o₁, -, ho₁, rfl⟩
    · exact (hs.objects ho').keeps hkeeps
    · cases ho.symm.trans ho₁
      exact ((hs.objects ho).set ha hv).keeps hkeeps
  · intro place' T' hT'
    obtain ⟨w, hw, hfits⟩ := hs.cells hT'
    exact ⟨w, hw, hfits.keeps hkeeps⟩

/-- A copy belongs to the class of what it is a copy of. -/
theorem WellTyped.copy (hs : s.WellTyped h types) (v : Value) :
    (v.copy s).2.WellTyped h types ∧ (v.copy s).1.className? (v.copy s).2 = v.className? s := by
  unfold Value.copy
  split
  · rename_i place
    cases ho : s.object? place with
    | none => exact ⟨hs, rfl⟩
    | some o =>
        refine ⟨hs.addObject (hs.objects ho), ?_⟩
        simp [Value.className?, ho]
  · exact ⟨hs, rfl⟩

/-- The store that a run starts from. -/
theorem wellTyped_initial (hwt : h.WellTyped) (input : Input) :
    (Machine.initial h input).store.WellTyped h [] := by
  have hobject : h.contains ClassName.object = true :=
    Hierarchy.contains_of_mem (hwt.tree.builtin Builtin.object (by simp [Builtin.classes]))
  have hio : h.contains ClassName.io = true :=
    Hierarchy.contains_of_mem (hwt.tree.builtin Builtin.io (by simp [Builtin.classes]))
  refine ⟨fun {place o} ho => ?_, rfl, fun hT => absurd hT (by simp), rfl, rfl⟩
  rcases object?_addObject_cases ho with ho | ⟨-, rfl⟩
  · rcases object?_addObject_cases ho with ho | ⟨-, rfl⟩
    · simp [object?, Store.empty] at ho
    · exact Object.wellTyped_ofBlueprint hwt hobject (by decide)
  · exact Object.wellTyped_ofBlueprint hwt hio (by decide)

end Store

/-! ## Environments -/

namespace Environment

variable {C : String} {Γ : Scope} {env : Environment}

theorem WellTyped.later (henv : env.WellTyped h C Γ types s) {types' : List String}
    (hkeeps : s.Keeps s') (htypes : types <+: types') : env.WellTyped h C Γ types' s' := by
  refine ⟨?_, henv.absent, fun hx => ?_⟩
  · obtain ⟨place, D, hself, hclass, hDC⟩ := henv.self
    exact ⟨place, D, hself, Value.className?_of_keeps hkeeps hclass, hDC⟩
  · obtain ⟨place, hplace, hT⟩ := henv.present hx
    obtain ⟨more, rfl⟩ := htypes
    have hlt := (List.getElem?_eq_some_iff.mp hT).1
    exact ⟨place, hplace, by rw [List.getElem?_append_left hlt]; exact hT⟩

theorem WellTyped.push (henv : env.WellTyped h C Γ types s) :
    env.WellTyped h C Γ.push types s :=
  ⟨henv.self, henv.absent, henv.present⟩

theorem WellTyped.bind (henv : env.WellTyped h C Γ types s) {x T : String} {place : Nat}
    (hplace : types[place]? = some T) :
    (env.bind x place).WellTyped h C (Γ.declare x T) types s := by
  refine ⟨henv.self, fun {y} hy => ?_, fun {y U} hy => ?_⟩
  · by_cases hyx : y = x
    · subst hyx
      rw [Scope.typeOf?_declare_self] at hy
      cases hy
    · rw [Scope.typeOf?_declare_of_ne _ _ hyx] at hy
      rw [place?_bind_of_ne _ _ hyx]
      exact henv.absent hy
  · by_cases hyx : y = x
    · subst hyx
      rw [Scope.typeOf?_declare_self] at hy
      cases hy
      exact ⟨place, place?_bind_self _ _ _, hplace⟩
    · rw [Scope.typeOf?_declare_of_ne _ _ hyx] at hy
      rw [place?_bind_of_ne _ _ hyx]
      exact henv.present hy

/-- The object that `self` is. -/
theorem WellTyped.exists_self (henv : env.WellTyped h C Γ types s) :
    ∃ place o, env.self = .object place ∧ s.object? place = some o ∧
      h.conforms o.blueprint.name C = true := by
  obtain ⟨place, D, hself, hclass, hDC⟩ := henv.self
  rw [hself] at hclass
  simp only [Value.className?, Option.map_eq_some_iff] at hclass
  obtain ⟨o, ho, rfl⟩ := hclass
  exact ⟨place, o, hself, ho, hDC⟩

/-- No feature is evaluated for a class that nothing may be below. -/
theorem WellTyped.ordinary (ht : h.IsTree) (hs : s.WellTyped h types)
    (henv : env.WellTyped h C Γ types s) : C ∉ ClassName.finals := by
  obtain ⟨place, o, -, ho, hconf⟩ := henv.exists_self
  exact ht.not_final_of_conforms hconf (hs.objects ho).ordinary

end Environment

end CoolLang
