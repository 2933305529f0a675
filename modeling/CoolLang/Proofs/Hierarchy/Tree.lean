import CoolLang.Proofs.Hierarchy.Cycle
import Mathlib.Order.WellFoundedSet

/-!
# Trees of classes

A hierarchy that passed validation is a tree: every walk over parents comes to an end, and it ends
at the root.
-/

namespace CoolLang.Hierarchy

open Relation

variable {h : Hierarchy} {name : String} {c : ClassInfo}

/-! ## No cycles -/

/-- The walk over parents from the name comes to an end. -/
def Grounded (h : Hierarchy) (name : String) : Prop :=
  ∃ cs, h.Chain name cs

/-- Nothing is left to walk, or what is left comes to an end. -/
def Ends (h : Hierarchy) (current : Option String) : Prop :=
  ∀ name ∈ current, h.Grounded name

theorem grounded_of_knownParent? (hends : h.Ends (h.knownParent? name)) : h.Grounded name := by
  cases hc : h.find? name with
  | none => exact ⟨[], .unknown hc⟩
  | some c =>
      cases hp : c.parent with
      | none => exact ⟨[c], .root hc hp⟩
      | some parent =>
          cases hknown : h.find? parent with
          | none => exact ⟨[c], .step hc hp (.unknown hknown)⟩
          | some d =>
              have hparent : h.knownParent? name = some parent := by
                simp [knownParent?, parent?, hc, hp, contains, hknown]
              obtain ⟨cs, hcs⟩ := hends parent hparent
              exact ⟨c :: cs, .step hc hp hcs⟩

/-- Without cycles every walk over parents comes to an end: there are only so many classes, and it
passes each of them once. -/
theorem grounded_of_cyclic (hcyclic : h.cyclic = []) (name : String) : h.Grounded name := by
  have hstrict : IsStrictOrder String fun a b => TransGen h.Inherits b a :=
    { irrefl := fun a hcycle => by
        have hmem := mem_cyclic_iff.mpr hcycle
        rw [hcyclic] at hmem
        cases hmem
      trans := fun _ _ _ hab hbc => hbc.trans hab }
  have hfinite : {a | h.contains a = true}.Finite := by
    refine (h.classes.map (·.name)).finite_toSet.subset fun a ha => ?_
    obtain ⟨c, hc⟩ := exists_find?_of_contains ha
    exact List.mem_map.mpr ⟨c, mem_classes_of_find? hc, name_of_find? hc⟩
  cases hname : h.contains name with
  | false => exact ⟨[], .unknown (by simpa [contains] using hname)⟩
  | true =>
      have hwf := hfinite.wellFoundedOn (r := fun a b => TransGen h.Inherits b a)
      refine hwf.induction hname ?_
      intro a _ ih
      refine grounded_of_knownParent? fun b hb => ?_
      have hab : h.Inherits a b := inherits_iff.mpr hb
      exact ih b hab.contains_right (.single hab)

/-! ## Trees -/

/-- The classes form a tree below the root: every other class names a known parent that may be
inherited from, and every walk over parents comes to an end. -/
structure IsTree (h : Hierarchy) : Prop where
  nodup : (h.classes.map (·.name)).Nodup
  builtin : ∀ c ∈ Builtin.classes, c ∈ h.classes
  /-- The names that no class of a program may take belong to the built-in classes. -/
  reserved : ∀ c ∈ h.classes, ClassName.isReserved c.name = true → c ∈ Builtin.classes
  parent : ∀ c ∈ h.classes, c = Builtin.object ∨ ∃ parent, c.parent = some parent ∧
    h.contains parent = true ∧ parent ∉ ClassName.finals
  grounded : ∀ name, h.Grounded name

theorem eq_object_or_parent : ∀ c ∈ Builtin.classes, c = Builtin.object ∨
    c.parent = some ClassName.object := by
  simp [Builtin.classes, Builtin.io, Builtin.int, Builtin.string, Builtin.bool, Builtin.build]

theorem parent_of_parentViolation? {parent : String} (hp : c.parent = some parent)
    (hviolation : h.parentViolation? c = none) :
    h.contains parent = true ∧ parent ∉ ClassName.finals := by
  simp only [parentViolation?, hp] at hviolation
  split at hviolation
  · cases hviolation
  · rename_i hlegal
    split at hviolation
    · cases hviolation
    · rename_i hknown
      simp only [Bool.or_eq_true, not_or] at hlegal
      exact ⟨by simpa using hknown, by simpa using hlegal.1⟩

section

variable {program : List ClassDecl}

theorem violations_of_ofProgram (hh : ofProgram program = (h, [])) : h.violations = [] := by
  have hh₁ : (initial.registerAll program).1 = h := congrArg Prod.fst hh
  have hh₂ := congrArg Prod.snd hh
  simp only [ofProgram, hh₁, List.append_eq_nil_iff] at hh₂
  exact hh₂.2

theorem mem_classes_cases (hh : ofProgram program = (h, [])) (hc : c ∈ h.classes) :
    c ∈ Builtin.classes ∨ ∃ d ∈ program, (ClassInfo.ofDecl d).1 = c := by
  apply mem_classes_ofProgram
  rw [hh]
  exact hc

/-- Where no parent violates the rules and there is no cycle, there is a tree. -/
theorem isTree_of_legal
    (hparents : ∀ c ∈ (ofProgram program).1.userClasses,
      (ofProgram program).1.parentViolation? c = none)
    (hcyclic : (ofProgram program).1.cyclic = []) : (ofProgram program).1.IsTree := by
  have hnamed := wellNamed_ofProgram program
  refine ⟨hnamed.nodup, hnamed.builtin, hnamed.reserved, ?_, grounded_of_cyclic hcyclic⟩
  intro c hc
  rcases hnamed.builtin_or_user hc with hbuilt | huser
  · have hroot := contains_of_find? hnamed.find?_object
    rcases eq_object_or_parent c hbuilt with rfl | hp
    · exact Or.inl rfl
    · exact Or.inr ⟨_, hp, hroot, by decide⟩
  · obtain ⟨parent, hp⟩ := exists_parent_of_user huser
    exact Or.inr ⟨parent, hp, parent_of_parentViolation? hp (hparents c huser)⟩

/-- **Validation accepts trees only.** -/
theorem isTree_of_ofProgram (hh : ofProgram program = (h, [])) : h.IsTree := by
  have hviolations := violations_of_ofProgram hh
  simp only [violations, List.append_eq_nil_iff, List.map_eq_nil_iff,
    List.filterMap_eq_nil_iff] at hviolations
  have hh₁ : (ofProgram program).1 = h := congrArg Prod.fst hh
  rw [← hh₁] at hviolations ⊢
  exact isTree_of_legal hviolations.1.1 hviolations.1.2

end

namespace IsTree

theorem wellNamed (ht : h.IsTree) : h.WellNamed :=
  ⟨ht.nodup, ht.builtin, ht.reserved⟩

theorem find?_of_mem (ht : h.IsTree) (hc : c ∈ h.classes) : h.find? c.name = some c :=
  ht.wellNamed.find?_of_mem hc

theorem find?_object (ht : h.IsTree) : h.find? ClassName.object = some Builtin.object :=
  ht.wellNamed.find?_object

theorem ancestors_object (ht : h.IsTree) : h.ancestors ClassName.object = [Builtin.object] :=
  Chain.ancestors_eq (.root ht.find?_object rfl)

theorem ancestors_of_parent (ht : h.IsTree) {parent : String} (hc : h.find? name = some c)
    (hp : c.parent = some parent) : h.ancestors name = c :: h.ancestors parent := by
  obtain ⟨cs, hcs⟩ := ht.grounded parent
  rw [(Chain.step hc hp hcs).ancestors_eq, hcs.ancestors_eq]

theorem contains_parent (ht : h.IsTree) {parent : String} (hc : h.find? name = some c)
    (hp : c.parent = some parent) : h.contains parent = true := by
  rcases ht.parent c (mem_classes_of_find? hc) with rfl | ⟨parent', hparent, hknown, -⟩
  · cases hp
  · rw [hp] at hparent
    cases hparent
    exact hknown

/-- A property of all known classes may be proved along the tree, from the root down. -/
theorem induction (ht : h.IsTree) {P : String → Prop} (root : P ClassName.object)
    (step : ∀ {name parent c}, h.find? name = some c → c.parent = some parent →
      h.contains parent = true → P parent → P name)
    (hname : h.contains name = true) : P name := by
  obtain ⟨cs, hcs⟩ := ht.grounded name
  induction hcs with
  | unknown hc =>
      rw [contains, hc] at hname
      cases hname
  | @root name c hc hp =>
      rcases ht.parent c (mem_classes_of_find? hc) with rfl | ⟨parent, hparent, -⟩
      · rw [← name_of_find? hc]
        exact root
      · rw [hp] at hparent
        cases hparent
  | @step name parent c cs hc hp hcs ih =>
      have hknown := ht.contains_parent hc hp
      exact step hc hp hknown (ih hknown)

theorem object_mem_ancestors (ht : h.IsTree) (hname : h.contains name = true) :
    Builtin.object ∈ h.ancestors name := by
  refine ht.induction (P := fun n => Builtin.object ∈ h.ancestors n) ?_ ?_ hname
  · rw [ht.ancestors_object]
    exact List.mem_cons_self
  · intro name parent c hc hp _ ih
    rw [ht.ancestors_of_parent hc hp]
    exact List.mem_cons_of_mem c ih

theorem reachesRoot_of_contains (ht : h.IsTree) (hname : h.contains name = true) :
    h.reachesRoot name = true := by
  refine ht.induction (P := fun name => h.reachesRoot name = true) ?_ ?_ hname
  · rw [reachesRoot, ht.ancestors_object]
    rfl
  · intro name parent c hc hp _ ih
    rw [reachesRoot] at ih ⊢
    rw [ht.ancestors_of_parent hc hp, List.getLast?_cons]
    cases hlast : (h.ancestors parent).getLast? with
    | none =>
        rw [hlast] at ih
        cases ih
    | some d =>
        rw [hlast] at ih
        exact ih

theorem mem_ancestors_self (ht : h.IsTree) (hc : h.find? name = some c) :
    c ∈ h.ancestors name := by
  obtain ⟨cs, hcs⟩ := ht.grounded name
  rw [hcs.ancestors_eq]
  cases hcs with
  | unknown hd => rw [hc] at hd; cases hd
  | root hd => rw [hc] at hd; cases hd; exact List.mem_cons_self
  | step hd => rw [hc] at hd; cases hd; exact List.mem_cons_self

theorem isReserved_of_mem_ancestors (ht : h.IsTree) {b : ClassInfo} (hb : b ∈ Builtin.classes)
    (hc : c ∈ h.ancestors b.name) : ClassName.isReserved c.name = true := by
  rcases eq_object_or_parent b hb with rfl | hp
  · rw [show Builtin.object.name = ClassName.object from rfl, ht.ancestors_object,
      List.mem_singleton] at hc
    exact hc ▸ rfl
  · rw [ht.ancestors_of_parent (ht.find?_of_mem (ht.builtin b hb)) hp, ht.ancestors_object] at hc
    rcases List.mem_cons.mp hc with rfl | hc
    · exact isReserved_of_mem_builtin c hb
    · rw [List.mem_singleton] at hc
      exact hc ▸ rfl

end IsTree

/-- A program that passed validation has a method to start with. -/
theorem exists_main_of_ofProgram {program : List ClassDecl} (hh : ofProgram program = (h, [])) :
    h.contains ClassName.mainClass = true ∧
    ∃ owner main, h.findMethod? ClassName.mainClass mainMethod = some (owner, main) ∧
      main.formals = [] := by
  have hviolations := violations_of_ofProgram hh
  simp only [violations, List.append_eq_nil_iff, Option.toList_eq_nil_iff] at hviolations
  have hmain := hviolations.2
  unfold mainViolation? at hmain
  split at hmain
  · cases hmain
  · rename_i c hc
    have hknown := contains_of_find? hc
    rw [if_pos ((isTree_of_ofProgram hh).reachesRoot_of_contains hknown)] at hmain
    split at hmain
    · cases hmain
    · rename_i owner main hfind
      split at hmain
      · rename_i harity
        exact ⟨hknown, owner, main, hfind, List.length_eq_zero_iff.mp harity⟩
      · cases hmain

end CoolLang.Hierarchy
