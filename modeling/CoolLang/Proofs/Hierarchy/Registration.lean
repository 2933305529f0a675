import CoolLang.Hierarchy.Validation
import CoolLang.Proofs.Hierarchy.Chain

/-!
# Registration

Classes are offered to a hierarchy one after another, and one that is refused leaves it as it was.
Whatever these classes are: no two of those that are kept share a name, and the built-in ones stay
what they are.
-/

namespace CoolLang.Hierarchy

variable {h h' : Hierarchy} {c : ClassInfo}

theorem contains_of_mem (hc : c ∈ h.classes) : h.contains c.name = true := by
  rw [contains, find?, List.find?_isSome]
  exact ⟨c, hc, beq_self_eq_true _⟩

/-- A class is registered at the end if its name is neither reserved nor taken. -/
theorem register_eq_ok (hreg : h.register c = .ok h') :
    ClassName.isReserved c.name = false ∧ h.contains c.name = false ∧
      h' = ⟨h.classes ++ [c]⟩ := by
  unfold register at hreg
  split at hreg
  · cases hreg
  · rename_i hreserved
    split at hreg
    · cases hreg
    · rename_i htaken
      cases hreg
      exact ⟨by simpa using hreserved, by simpa using htaken, rfl⟩

theorem nodup_names_append (hnodup : (h.classes.map (·.name)).Nodup)
    (hnew : h.contains c.name = false) : ((h.classes ++ [c]).map (·.name)).Nodup := by
  rw [List.map_append, List.nodup_append]
  refine ⟨hnodup, by simp, ?_⟩
  intro a ha b hb hab
  obtain ⟨d, hd, rfl⟩ := List.mem_map.mp ha
  rw [List.map_singleton, List.mem_singleton] at hb
  have hknown := contains_of_mem hd
  rw [hab, hb, hnew] at hknown
  cases hknown

/-! ## One class after another -/

/-- The hierarchy after a class has been offered to it. -/
def offer (h : Hierarchy) (c : ClassInfo) : Hierarchy :=
  match h.register c with
  | .ok h' => h'
  | .error _ => h

/-- The hierarchy after classes have been offered to it in order. -/
def offerAll (h : Hierarchy) (cs : List ClassInfo) : Hierarchy :=
  cs.foldl offer h

theorem offer_cases (h : Hierarchy) (c : ClassInfo) :
    h.offer c = h ∨ h.register c = .ok (h.offer c) := by
  unfold offer
  cases h.register c with
  | ok h' => exact Or.inr rfl
  | error refusal => exact Or.inl rfl

/-- The classes of a program are offered in the order of their declarations. -/
theorem registerAll_eq_offerAll (ds : List ClassDecl) :
    ∀ h : Hierarchy, (h.registerAll ds).1 = h.offerAll (ds.map (ClassInfo.ofDecl · |>.1)) := by
  induction ds with
  | nil => intro h; rfl
  | cons d ds ih =>
      intro h
      rw [List.map_cons, offerAll, List.foldl_cons, ← offerAll]
      cases hreg : h.register (ClassInfo.ofDecl d).1 with
      | ok h' =>
          simp only [registerAll, offer, hreg]
          exact ih h'
      | error refusal =>
          simp only [registerAll, offer, hreg]
          exact ih h

theorem mem_offerAll (cs : List ClassInfo) :
    ∀ {h : Hierarchy}, c ∈ (h.offerAll cs).classes → c ∈ h.classes ∨ c ∈ cs := by
  induction cs with
  | nil => intro h hc; exact Or.inl hc
  | cons d cs ih =>
      intro h hc
      rcases ih hc with hc | hc
      · rcases h.offer_cases d with heq | hreg
        · rw [heq] at hc
          exact Or.inl hc
        · rw [(register_eq_ok hreg).2.2] at hc
          rcases List.mem_append.mp hc with hc | hc
          · exact Or.inl hc
          · rw [List.mem_singleton] at hc
            exact Or.inr (hc ▸ List.mem_cons_self)
      · exact Or.inr (List.mem_cons_of_mem d hc)

/-! ## Names -/

/-- What registration sees to. -/
structure WellNamed (h : Hierarchy) : Prop where
  nodup : (h.classes.map (·.name)).Nodup
  builtin : ∀ c ∈ Builtin.classes, c ∈ h.classes
  /-- The names that no class of a program may take belong to the built-in classes. -/
  reserved : ∀ c ∈ h.classes, ClassName.isReserved c.name = true → c ∈ Builtin.classes

theorem wellNamed_initial : initial.WellNamed :=
  ⟨by decide, fun _ hc => hc, fun _ hc _ => hc⟩

namespace WellNamed

theorem register (hh : h.WellNamed) (hreg : h.register c = .ok h') : h'.WellNamed := by
  obtain ⟨hreserved, hnew, rfl⟩ := register_eq_ok hreg
  constructor
  · exact nodup_names_append hh.nodup hnew
  · intro b hb
    exact List.mem_append_left _ (hh.builtin b hb)
  · intro d hd hname
    rcases List.mem_append.mp hd with hd | hd
    · exact hh.reserved d hd hname
    · rw [List.mem_singleton] at hd
      rw [hd, hreserved] at hname
      cases hname

theorem offerAll (cs : List ClassInfo) :
    ∀ {h : Hierarchy}, h.WellNamed → (h.offerAll cs).WellNamed := by
  induction cs with
  | nil => intro h hh; exact hh
  | cons c cs ih =>
      intro h hh
      rcases h.offer_cases c with heq | hreg
      · exact ih (heq.symm ▸ hh)
      · exact ih (hh.register hreg)

theorem find?_of_mem (hh : h.WellNamed) (hc : c ∈ h.classes) : h.find? c.name = some c :=
  find?_key_eq_some hh.nodup hc

theorem find?_object (hh : h.WellNamed) : h.find? ClassName.object = some Builtin.object :=
  hh.find?_of_mem (hh.builtin Builtin.object List.mem_cons_self)

theorem builtin_or_user (hh : h.WellNamed) (hc : c ∈ h.classes) :
    c ∈ Builtin.classes ∨ c ∈ h.userClasses := by
  by_cases hreserved : ClassName.isReserved c.name = true
  · exact Or.inl (hh.reserved c hc hreserved)
  · exact Or.inr (List.mem_filter.mpr ⟨hc, by simpa using hreserved⟩)

/-- `SELF_TYPE` is the name of no class. -/
theorem ne_selfType (hh : h.WellNamed) {name : String} (hname : h.contains name = true) :
    name ≠ ClassName.selfType := by
  rintro rfl
  obtain ⟨c, hc⟩ := exists_find?_of_contains hname
  have hself := name_of_find? hc
  have hbuilt := hh.reserved c (mem_classes_of_find? hc) (by rw [hself]; rfl)
  have hno : ∀ c ∈ Builtin.classes, c.name ≠ ClassName.selfType := by decide
  exact hno c hbuilt hself

end WellNamed

theorem ofProgram_fst (program : List ClassDecl) :
    (ofProgram program).1 = initial.offerAll (program.map (ClassInfo.ofDecl · |>.1)) :=
  registerAll_eq_offerAll program initial

theorem wellNamed_ofProgram (program : List ClassDecl) : (ofProgram program).1.WellNamed := by
  rw [ofProgram_fst]
  exact wellNamed_initial.offerAll _

/-- A class of a program is a built-in one or one that the program declares. -/
theorem mem_classes_ofProgram {program : List ClassDecl}
    (hc : c ∈ (ofProgram program).1.classes) :
    c ∈ Builtin.classes ∨ ∃ d ∈ program, (ClassInfo.ofDecl d).1 = c := by
  rw [ofProgram_fst] at hc
  rcases mem_offerAll _ hc with hc | hc
  · exact Or.inl hc
  · exact Or.inr (List.mem_map.mp hc)

theorem isReserved_of_mem_builtin : ∀ c ∈ Builtin.classes, ClassName.isReserved c.name = true := by
  decide

/-- A class that a program declares has a parent, the root if it names none. -/
theorem exists_parent_of_user {program : List ClassDecl}
    (hc : c ∈ (ofProgram program).1.userClasses) : ∃ parent, c.parent = some parent := by
  obtain ⟨hmem, huser⟩ := List.mem_filter.mp hc
  rcases mem_classes_ofProgram hmem with hbuilt | ⟨d, -, rfl⟩
  · rw [isReserved_of_mem_builtin c hbuilt] at huser
    cases huser
  · exact ⟨_, rfl⟩

end CoolLang.Hierarchy
