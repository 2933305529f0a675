import CoolLang.Object.Environment

/-!
# What stores keep

No operation on a store takes an object away or changes the class it belongs to, so a value belongs
to the same class ever after.
-/

namespace CoolLang

namespace Store

/-- Every object is still there and belongs to the class it was made for. -/
def Keeps (s s' : Store) : Prop :=
  ∀ place o, s.object? place = some o →
    ∃ o', s'.object? place = some o' ∧ o'.blueprint = o.blueprint

variable {s s₁ s₂ s₃ : Store}

theorem keeps_of_object?_eq
    (h : ∀ place o, s₁.object? place = some o → s₂.object? place = some o) : s₁.Keeps s₂ :=
  fun place o ho => ⟨o, h place o ho, rfl⟩

theorem Keeps.refl (s : Store) : s.Keeps s := keeps_of_object?_eq fun _ _ ho => ho

theorem Keeps.trans (h₁ : s₁.Keeps s₂) (h₂ : s₂.Keeps s₃) : s₁.Keeps s₃ := by
  intro place o ho
  obtain ⟨o₁, ho₁, hb₁⟩ := h₁ place o ho
  obtain ⟨o₂, ho₂, hb₂⟩ := h₂ place o₁ ho₁
  exact ⟨o₂, ho₂, hb₂.trans hb₁⟩

theorem keeps_addCell (s : Store) (v : Value) : s.Keeps (s.addCell v) :=
  keeps_of_object?_eq fun _ _ ho => ho

theorem keeps_setCell (s : Store) (place : Nat) (v : Value) : s.Keeps (s.setCell place v) :=
  keeps_of_object?_eq fun _ _ ho => ho

theorem keeps_addObject (s : Store) (o : Object) : s.Keeps (s.addObject o) :=
  keeps_of_object?_eq fun _ _ ho => object?_addObject_of_some _ _ ho

theorem keeps_setField (s : Store) (place : Nat) (name : String) (v : Value) :
    s.Keeps (s.setField place name v) := by
  intro place' o ho
  by_cases hplace : place = place'
  · subst hplace
    exact ⟨o.set name v, object?_setField_self _ _ _ ho, rfl⟩
  · exact ⟨o, by rw [object?_setField_of_ne _ _ _ hplace]; exact ho, rfl⟩

theorem keeps_copy (s : Store) (v : Value) : s.Keeps (v.copy s).2 := by
  unfold Value.copy
  split
  · split
    · exact keeps_addObject s _
    · exact .refl s
  · exact .refl s

theorem cells_copy (s : Store) (v : Value) : (v.copy s).2.cells = s.cells := by
  unfold Value.copy
  split
  · split <;> rfl
  · rfl

/-- An object in an extended store was there before or is the new one. -/
theorem object?_addObject_cases {new o : Object} {place : Nat}
    (h : (s.addObject new).object? place = some o) :
    s.object? place = some o ∨ place = s.objects.size ∧ o = new := by
  simp only [object?, addObject, Array.getElem?_push] at h
  split at h
  · exact Or.inr ⟨‹_›, by simpa using h.symm⟩
  · exact Or.inl h

theorem object?_setField_cases {o : Object} {place other : Nat} {name : String} {v : Value}
    (h : (s.setField place name v).object? other = some o) :
    (place ≠ other ∧ s.object? other = some o) ∨
    ∃ o', place = other ∧ s.object? place = some o' ∧ o = o'.set name v := by
  by_cases hplace : place = other
  · subst hplace
    cases hold : s.object? place with
    | none =>
        have hold' : s.objects[place]? = none := hold
        simp [object?, setField, Array.getElem?_modify, hold'] at h
    | some o' =>
        rw [object?_setField_self _ _ _ hold] at h
        exact Or.inr ⟨o', rfl, rfl, by simpa using h.symm⟩
  · rw [object?_setField_of_ne _ _ _ hplace] at h
    exact Or.inl ⟨hplace, h⟩

theorem cell?_setCell_self {place : Nat} {v : Value} (h : place < s.cells.size) :
    (s.setCell place v).cell? place = some v := by
  simp [cell?, setCell, h]

end Store

theorem Value.className?_of_keeps {s s' : Store} (h : s.Keeps s') {v : Value} {D : String}
    (hv : v.className? s = some D) : v.className? s' = some D := by
  cases v with
  | object place =>
      simp only [className?, Option.map_eq_some_iff] at hv ⊢
      obtain ⟨o, ho, hname⟩ := hv
      obtain ⟨o', ho', hb⟩ := h place o ho
      exact ⟨o', ho', by rw [hb]; exact hname⟩
  | _ => exact hv

end CoolLang
