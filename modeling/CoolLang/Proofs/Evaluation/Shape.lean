import CoolLang.Proofs.Evaluation.Conservation
import CoolLang.Proofs.Evaluation.Typing

/-!
# Shapes

Of the types in a store only this much is asked here: an object has the attributes of its class and
no others, and the names of an environment are those of a scope. Every evaluation keeps to it, also
that of programs whose values do not fit their types.
-/

namespace CoolLang

/-- The object has the attributes of its class, whatever they hold. -/
structure Object.Shaped (h : Hierarchy) (o : Object) : Prop where
  known : h.contains o.blueprint.name = true
  blueprint : o.blueprint = .ofClass h o.blueprint.name
  fields : ∀ x, (o.get? x).isSome = o.blueprint.hasAttribute x

def Store.Shaped (h : Hierarchy) (s : Store) : Prop :=
  ∀ place o, s.object? place = some o → o.Shaped h

/-- The names of the environment are those of the scope, and each has a cell. -/
structure Environment.Agrees (Γ : Scope) (s : Store) (env : Environment) : Prop where
  absent : ∀ {x}, Γ.typeOf? x = none → env.place? x = none
  present : ∀ {x T}, Γ.typeOf? x = some T →
    ∃ place, env.place? x = some place ∧ place < s.cells.size

/-- Objects stay in shape and no cell is lost. -/
structure Store.KeepsShape (h : Hierarchy) (s s' : Store) : Prop where
  shaped : s.Shaped h → s'.Shaped h
  cells : s.cells.size ≤ s'.cells.size

def Machine.KeepsShape (h : Hierarchy) (m m' : Machine) : Prop :=
  m.store.KeepsShape h m'.store

variable {h : Hierarchy} {s s' : Store}

/-! ## Objects and stores -/

theorem Object.shaped_ofBlueprint {D : String} (hD : h.contains D = true) :
    (Object.ofBlueprint (.ofClass h D)).Shaped h := by
  refine ⟨hD, rfl, fun x => ?_⟩
  rw [get?, ofBlueprint, lookup_map_eq_find?, Option.isSome_map, Blueprint.hasAttribute_eq]

theorem Object.Shaped.set {o : Object} (ho : o.Shaped h) {x : String}
    (hx : o.blueprint.hasAttribute x = true) (v : Value) : (o.set x v).Shaped h := by
  refine ⟨ho.known, ho.blueprint, fun y => ?_⟩
  by_cases hyx : y = x
  · subst hyx
    rw [get?_set_self]
    exact hx.symm
  · rw [get?_set_of_ne _ _ hyx]
    exact ho.fields y

namespace Store

theorem Shaped.contains_className? (hs : s.Shaped h) (ht : h.IsTree) {v : Value} {D : String}
    (hv : v.className? s = some D) : h.contains D = true :=
  Value.contains_of_className? ht (fun place o ho => (hs place o ho).known) hv

theorem Shaped.addObject (hs : s.Shaped h) {new : Object} (hnew : new.Shaped h) :
    (s.addObject new).Shaped h := by
  intro place o ho
  rcases object?_addObject_cases ho with ho | ⟨-, rfl⟩
  · exact hs place o ho
  · exact hnew

theorem Shaped.create (hs : s.Shaped h) {name : String} {b : Blueprint}
    (hb : (ClassTable.ofHierarchy h).find? name = some b) :
    (s.addObject (.ofBlueprint b)).Shaped h := by
  obtain ⟨hknown, rfl⟩ := ClassTable.find?_ofHierarchy_eq_some hb
  exact hs.addObject (Object.shaped_ofBlueprint hknown)

theorem Shaped.setField (hs : s.Shaped h) {place : Nat} {o : Object}
    (ho : s.object? place = some o) {x : String} (hx : o.blueprint.hasAttribute x = true)
    (v : Value) : (s.setField place x v).Shaped h := by
  intro other o' ho'
  rcases object?_setField_cases ho' with ⟨-, ho'⟩ | ⟨o₁, -, ho₁, rfl⟩
  · exact hs other o' ho'
  · cases ho.symm.trans ho₁
    exact (hs place o ho).set hx v

theorem Shaped.copy (hs : s.Shaped h) (v : Value) : (v.copy s).2.Shaped h := by
  unfold Value.copy
  split
  · rename_i place
    cases ho : s.object? place with
    | none => exact hs
    | some o => exact hs.addObject (hs place o ho)
  · exact hs

theorem shaped_initial_of_wellNamed (hh : h.WellNamed) (input : Input) :
    (Machine.initial h input).store.Shaped h := by
  have hnew : ∀ c ∈ Builtin.classes, (Object.ofBlueprint (.ofClass h c.name)).Shaped h :=
    fun c hc => Object.shaped_ofBlueprint (Hierarchy.contains_of_mem (hh.builtin c hc))
  have hempty : Store.empty.Shaped h := fun place o ho => by simp [object?, Store.empty] at ho
  exact (hempty.addObject (hnew Builtin.object (by simp [Builtin.classes]))).addObject
    (hnew Builtin.io (by simp [Builtin.classes]))

theorem shaped_initial (ht : h.IsTree) (input : Input) :
    (Machine.initial h input).store.Shaped h :=
  shaped_initial_of_wellNamed ht.wellNamed input

end Store

/-- **Shapes are conserved.** -/
theorem Machine.conserved_keepsShape {p : Program} (hp : p.classes = .ofHierarchy h) :
    Conserved p (KeepsShape h) where
  refl _ := ⟨id, le_rfl⟩
  trans h₁ h₂ := ⟨h₂.shaped ∘ h₁.shaped, h₁.cells.trans h₂.cells⟩
  write _ _ := ⟨id, le_rfl⟩
  read _ := ⟨id, le_rfl⟩
  create m name b hb := ⟨fun hs => hs.create (hp ▸ hb), le_rfl⟩
  copy m v := ⟨fun hs => hs.copy v, by rw [Store.cells_copy]⟩
  addCell m v := ⟨id, by simp [Store.addCell]⟩
  setCell m place v := ⟨id, by simp [Store.setCell]⟩
  setField m place o x v ho hx := ⟨fun hs => hs.setField ho hx v, le_rfl⟩
  call hm := hm
  construction _ hm := hm

/-! ## Environments -/

namespace Environment.Agrees

variable {Γ : Scope} {env : Environment}

theorem later (henv : env.Agrees Γ s) (hcells : s.cells.size ≤ s'.cells.size) :
    env.Agrees Γ s' := by
  refine ⟨henv.absent, fun hx => ?_⟩
  obtain ⟨place, hplace, hlt⟩ := henv.present hx
  exact ⟨place, hplace, hlt.trans_le hcells⟩

theorem push (henv : env.Agrees Γ s) : env.Agrees Γ.push s :=
  ⟨henv.absent, henv.present⟩

theorem ofSelf (self : Value) (hΓ : ∀ x, Γ.typeOf? x = none) :
    (Environment.ofSelf self).Agrees Γ s :=
  ⟨fun _ => rfl, fun hx => by rw [hΓ] at hx; cases hx⟩

/-- A new name in a new cell. -/
theorem define (henv : env.Agrees Γ s) (x T : String) (v : Value) :
    (env.bind x s.cells.size).Agrees (Γ.declare x T) (s.addCell v) := by
  have hcells : (s.addCell v).cells.size = s.cells.size + 1 := by simp [Store.addCell]
  refine ⟨fun {y} hy => ?_, fun {y U} hy => ?_⟩
  · by_cases hyx : y = x
    · subst hyx
      rw [Scope.typeOf?_declare_self] at hy
      cases hy
    · rw [Scope.typeOf?_declare_of_ne _ _ hyx] at hy
      rw [place?_bind_of_ne _ _ hyx]
      exact henv.absent hy
  · by_cases hyx : y = x
    · subst hyx
      exact ⟨s.cells.size, place?_bind_self _ _ _, by rw [hcells]; exact Nat.lt_succ_self _⟩
    · rw [Scope.typeOf?_declare_of_ne _ _ hyx] at hy
      rw [place?_bind_of_ne _ _ hyx]
      exact (henv.later (Nat.le_of_lt (by rw [hcells]; exact Nat.lt_succ_self _))).present hy

theorem get?_eq_none (henv : env.Agrees Γ s) {x : String} (hx : Γ.typeOf? x = none) :
    env.get? s x = none :=
  Environment.get?_of_place?_eq_none s (henv.absent hx)

theorem exists_get? (henv : env.Agrees Γ s) {x T : String} (hx : Γ.typeOf? x = some T) :
    ∃ v, env.get? s x = some v := by
  obtain ⟨place, hplace, hlt⟩ := henv.present hx
  rw [Environment.get?, hplace]
  exact ⟨_, Array.getElem?_eq_getElem hlt⟩

end Environment.Agrees

end CoolLang
