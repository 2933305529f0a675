import CoolLang.Hierarchy.Conformance
import CoolLang.Proofs.Hierarchy.Tree

/-!
# Conformance

A type conforms to the root and to what it leads to over parents. That is a preorder in every
hierarchy, also with cycles, with parents that are not known and for names of no class. In trees it
is an order, and the built-in classes that may not be inherited from have nothing below them.
-/

namespace CoolLang.Hierarchy

open Relation

variable {h : Hierarchy} {a b c : String}

theorem conforms_self (h : Hierarchy) (a : String) : h.conforms a a = true := by
  simp [conforms]

theorem conforms_object (h : Hierarchy) (a : String) :
    h.conforms a ClassName.object = true := by
  simp [conforms]

theorem conforms_of_mem_ancestors {d : ClassInfo} (hd : d ∈ h.ancestors a) :
    h.conforms a d.name = true := by
  have hany : (h.ancestors a).any (·.name == d.name) = true :=
    List.any_eq_true.mpr ⟨d, hd, beq_self_eq_true _⟩
  rw [conforms, hany, Bool.or_true]

/-- The three ways to conform. -/
theorem conforms_cases (hab : h.conforms a b = true) :
    a = b ∨ b = ClassName.object ∨ ∃ d ∈ h.ancestors a, d.name = b := by
  rw [conforms, Bool.or_eq_true, Bool.or_eq_true, List.any_eq_true] at hab
  rcases hab with (hab | hab) | ⟨d, hd, hdb⟩
  · exact Or.inl (by simpa using hab)
  · exact Or.inr (Or.inl (by simpa using hab))
  · exact Or.inr (Or.inr ⟨d, hd, by simpa using hdb⟩)

theorem conforms_iff :
    h.conforms a b = true ↔ b = ClassName.object ∨ ReflTransGen h.Inherits a b := by
  constructor
  · intro hab
    rcases conforms_cases hab with rfl | hb | ⟨d, hd, rfl⟩
    · exact Or.inr .refl
    · exact Or.inl hb
    · exact Or.inr (mem_ancestors_iff.mp (List.mem_map_of_mem hd)).2
  · rintro (rfl | hab)
    · exact h.conforms_object a
    · cases ha : h.contains a with
      | false => exact eq_of_not_contains ha hab ▸ h.conforms_self a
      | true =>
          obtain ⟨d, hd, rfl⟩ := List.mem_map.mp (mem_ancestors_iff.mpr ⟨ha, hab⟩)
          exact conforms_of_mem_ancestors hd

theorem WellNamed.conforms_trans (hh : h.WellNamed) (hab : h.conforms a b = true)
    (hbc : h.conforms b c = true) : h.conforms a c = true := by
  rcases conforms_iff.mp hbc with rfl | hbc
  · exact h.conforms_object a
  · rcases conforms_iff.mp hab with rfl | hab
    · rw [hh.eq_object hbc]
      exact h.conforms_object a
    · exact conforms_iff.mpr (Or.inr (hab.trans hbc))

/-- A class from which the walk over parents comes to an end is not on a cycle. -/
theorem Chain.not_onCycle {cs : List ClassInfo} (hcs : h.Chain a cs) :
    ¬ TransGen h.Inherits a a := by
  induction hcs with
  | unknown hc =>
      intro hcycle
      obtain ⟨b, hab, -⟩ := TransGen.head'_iff.mp hcycle
      have hknown := hab.contains_left
      rw [contains, hc] at hknown
      cases hknown
  | root hc hp =>
      intro hcycle
      obtain ⟨b, hab, -⟩ := TransGen.head'_iff.mp hcycle
      rw [hab.parent_eq hc] at hp
      cases hp
  | step hc hp _ ih =>
      intro hcycle
      obtain ⟨b, hab, hba⟩ := TransGen.head'_iff.mp hcycle
      rw [hab.parent_eq hc] at hp
      cases hp
      exact ih (TransGen.tail' hba hab)

namespace IsTree

theorem not_onCycle (ht : h.IsTree) (a : String) : ¬ TransGen h.Inherits a a := by
  obtain ⟨cs, hcs⟩ := ht.grounded a
  exact hcs.not_onCycle

/-- A known class leads to the root. -/
theorem reaches_object (ht : h.IsTree) (ha : h.contains a = true) :
    ReflTransGen h.Inherits a ClassName.object :=
  (mem_ancestors_iff.mp (List.mem_map_of_mem (ht.object_mem_ancestors ha))).2

theorem conforms_iff_reaches (ht : h.IsTree) (ha : h.contains a = true) :
    h.conforms a b = true ↔ ReflTransGen h.Inherits a b := by
  rw [conforms_iff]
  constructor
  · rintro (rfl | hab)
    · exact ht.reaches_object ha
    · exact hab
  · exact Or.inr

theorem conforms_antisymm (ht : h.IsTree) (hab : h.conforms a b = true)
    (hba : h.conforms b a = true) : a = b := by
  rcases conforms_iff.mp hab with rfl | hab
  · rcases conforms_iff.mp hba with rfl | hba
    · rfl
    · exact ht.wellNamed.eq_object hba
  · rcases conforms_iff.mp hba with rfl | hba
    · exact (ht.wellNamed.eq_object hab).symm
    · rcases reflTransGen_iff_eq_or_transGen.mp hab with rfl | hab
      · rfl
      · exact absurd (hab.trans_left hba) (ht.not_onCycle a)

/-- A known class conforms to its ancestors and to nothing else. -/
theorem exists_ancestor (ht : h.IsTree) (ha : h.contains a = true)
    (hab : h.conforms a b = true) : ∃ d ∈ h.ancestors a, d.name = b := by
  rcases conforms_cases hab with rfl | rfl | hd
  · obtain ⟨d, hd⟩ := exists_find?_of_contains ha
    exact ⟨d, ht.mem_ancestors_self hd, name_of_find? hd⟩
  · exact ⟨Builtin.object, ht.object_mem_ancestors ha, rfl⟩
  · exact hd

/-- What holds of a class and is handed on from parents to children holds of all classes below. -/
theorem induction_below (ht : h.IsTree) {P : String → Prop} (base : P b)
    (step : ∀ {name parent c}, h.find? name = some c → c.parent = some parent → P parent → P name)
    (ha : h.contains a = true) (hab : h.conforms a b = true) : P a := by
  obtain ⟨d, hd, rfl⟩ := ht.exists_ancestor ha hab
  refine ht.induction (P := fun a => d ∈ h.ancestors a → P a) ?_ ?_ ha hd
  · intro hd
    rw [ht.ancestors_object, List.mem_singleton] at hd
    subst hd
    exact base
  · intro name parent c hc hp _ ih hd
    rw [ht.ancestors_of_parent hc hp] at hd
    rcases List.mem_cons.mp hd with rfl | hd
    · rwa [name_of_find? hc] at base
    · exact step hc hp (ih hd)

theorem conforms_trans (ht : h.IsTree) (hab : h.conforms a b = true)
    (hbc : h.conforms b c = true) : h.conforms a c = true :=
  ht.wellNamed.conforms_trans hab hbc

/-- Nothing but a final class itself lies at or below it. -/
theorem eq_of_conforms_final (ht : h.IsTree) (hab : h.conforms a b = true)
    (hb : b ∈ ClassName.finals) : a = b := by
  rcases conforms_cases hab with rfl | rfl | ⟨d, hd, rfl⟩
  · rfl
  · exact absurd hb (by decide)
  obtain ⟨cs, hcs⟩ := ht.grounded a
  rw [hcs.ancestors_eq] at hd
  induction hcs with
  | unknown => cases hd
  | root hc hp =>
      rw [List.mem_singleton] at hd
      rw [hd, name_of_find? hc]
  | @step name parent c cs hc hp hcs ih =>
      rcases List.mem_cons.mp hd with rfl | hd
      · exact (name_of_find? hc).symm
      · -- the parent would be final
        have hparent : parent = d.name := by
          refine ih (conforms_of_mem_ancestors ?_) hd
          rw [hcs.ancestors_eq]
          exact hd
        rcases ht.parent c (mem_classes_of_find? hc) with rfl | ⟨_, hp', -, hfinal⟩
        · cases hp
        · rw [hp] at hp'
          cases hp'
          exact absurd (hparent ▸ hb) hfinal

theorem not_final_of_conforms (ht : h.IsTree) (hab : h.conforms a b = true)
    (ha : a ∉ ClassName.finals) : b ∉ ClassName.finals := by
  intro hb
  exact ha (ht.eq_of_conforms_final hab hb ▸ hb)

end IsTree

/-- **Conformance is an order.** Whatever classes have been offered for registration, conformance is
reflexive and transitive on all names, with the root on top. Where validation finds nothing wrong it
is also antisymmetric, and a known class conforms to what it leads to over parents and to nothing
else. -/
theorem conforms_isOrder :
    (∀ cs h, initial.offerAll cs = h → (∀ a, h.conforms a a = true) ∧
      (∀ a b c, h.conforms a b = true → h.conforms b c = true → h.conforms a c = true) ∧
      ∀ a, h.conforms a ClassName.object = true) ∧
    ∀ program h, ofProgram program = (h, []) →
      (∀ a b, h.conforms a b = true → h.conforms b a = true → a = b) ∧
      ∀ a b, h.contains a = true →
        (h.conforms a b = true ↔ ReflTransGen h.Inherits a b) := by
  constructor
  · rintro cs h rfl
    have hnamed := wellNamed_initial.offerAll cs
    exact ⟨conforms_self _, fun a b c => hnamed.conforms_trans, conforms_object _⟩
  · intro program h hh
    have ht := isTree_of_ofProgram hh
    exact ⟨fun a b => ht.conforms_antisymm, fun a b => ht.conforms_iff_reaches⟩

/-- Cats and dogs, and hounds below the dogs. -/
def zoo : List ClassDecl :=
  [⟨"Animal", none, [], .nowhere⟩, ⟨"Cat", some "Animal", [], .nowhere⟩,
    ⟨"Dog", some "Animal", [], .nowhere⟩, ⟨"Hound", some "Dog", [], .nowhere⟩,
    ⟨ClassName.mainClass, none,
      [.method ⟨mainMethod, [], ClassName.int, .int 0 .nowhere, .nowhere⟩], .nowhere⟩]

theorem ofProgram_zoo : ofProgram zoo = ((ofProgram zoo).1, []) := by
  have hnil : (ofProgram zoo).2 = [] := by decide +kernel
  rw [← hnil]

/-- In a zoo hounds are animals and no cats. Where two classes are each other's parent, they conform
to each other, and what is below one is below the other. -/
theorem conforms_isOrder_zoo :
    (∃ h, ofProgram zoo = (h, []) ∧ ReflTransGen h.Inherits "Hound" "Animal" ∧
      ¬ ReflTransGen h.Inherits "Hound" "Cat") ∧
    ∃ h, initial.offerAll entwined = h ∧ h.conforms "Egg" "Hen" = true ∧
      h.conforms "Hen" "Egg" = true ∧ h.conforms "Chick" "Egg" = true := by
  obtain ⟨hpre, horder⟩ := conforms_isOrder
  constructor
  · obtain ⟨-, hreach⟩ := horder zoo _ ofProgram_zoo
    have hknown : (ofProgram zoo).1.contains "Hound" = true := by decide +kernel
    refine ⟨_, ofProgram_zoo, (hreach _ _ hknown).mp (by decide +kernel), fun hcat => ?_⟩
    have hfalse : (ofProgram zoo).1.conforms "Hound" "Cat" = false := by decide +kernel
    rw [(hreach _ _ hknown).mpr hcat] at hfalse
    cases hfalse
  · obtain ⟨-, htrans, -⟩ := hpre entwined _ rfl
    have hegg : (initial.offerAll entwined).conforms "Hen" "Egg" = true := by decide +kernel
    exact ⟨_, rfl, by decide +kernel, hegg, htrans "Chick" "Hen" "Egg" (by decide +kernel) hegg⟩

/-! ## Look-ups along the ancestors -/

theorem findMethod?_eq_some {className x owner : String} {m : Method}
    (hm : h.findMethod? className x = some (owner, m)) :
    ∃ d ∈ h.ancestors className, d.name = owner ∧ d.method? x = some m := by
  obtain ⟨d, hd, hdm⟩ := List.exists_of_findSome?_eq_some hm
  rw [Option.map_eq_some_iff] at hdm
  obtain ⟨m', hm', heq⟩ := hdm
  cases heq
  exact ⟨d, hd, rfl, hm'⟩

theorem findAttribute?_eq_some {className x owner : String} {t : Attribute}
    (hx : h.findAttribute? className x = some (owner, t)) :
    ∃ d ∈ h.ancestors className, d.name = owner ∧ d.attribute? x = some t := by
  obtain ⟨d, hd, hdt⟩ := List.exists_of_findSome?_eq_some hx
  rw [Option.map_eq_some_iff] at hdt
  obtain ⟨t', ht', heq⟩ := hdt
  cases heq
  exact ⟨d, hd, rfl, ht'⟩

theorem IsTree.findMethod?_of_parent (ht : h.IsTree) {name parent : String} {d : ClassInfo}
    (hd : h.find? name = some d) (hp : d.parent = some parent) (x : String) :
    h.findMethod? name x = ((d.method? x).map (d.name, ·)).or (h.findMethod? parent x) := by
  rw [findMethod?, ht.ancestors_of_parent hd hp, List.findSome?_cons, findMethod?]
  cases d.method? x <;> rfl

theorem IsTree.findAttribute?_of_parent (ht : h.IsTree) {name parent : String} {d : ClassInfo}
    (hd : h.find? name = some d) (hp : d.parent = some parent) (x : String) :
    h.findAttribute? name x =
      ((d.attribute? x).map (d.name, ·)).or (h.findAttribute? parent x) := by
  rw [findAttribute?, ht.ancestors_of_parent hd hp, List.findSome?_cons, findAttribute?]
  cases d.attribute? x <;> rfl

/-- What a class declares itself is found first. -/
theorem IsTree.findAttribute?_self (ht : h.IsTree) {name x : String} {d : ClassInfo}
    (hd : h.find? name = some d) {t : Attribute} (hx : d.attribute? x = some t) :
    h.findAttribute? name x = some (d.name, t) := by
  rcases ht.parent d (mem_classes_of_find? hd) with rfl | ⟨parent, hp, -⟩
  · cases hx
  · rw [ht.findAttribute?_of_parent hd hp, hx]
    rfl

end CoolLang.Hierarchy
