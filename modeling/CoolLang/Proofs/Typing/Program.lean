import CoolLang.Proofs.Hierarchy.Accounts
import CoolLang.Proofs.Hierarchy.Join
import CoolLang.Proofs.Object.Blueprint
import CoolLang.Proofs.Typing.Class

/-!
# Well-typed programs

What holds of the classes of a program that passed validation and the type check without a single
complaint: methods keep their signatures down the tree, and no attribute is declared twice on the
way from a class to the root. So what a look-up finds for a class is, as far as types go, what it
finds for any class below.
-/

namespace CoolLang

/-! ## Features as they are written -/

namespace ClassInfo

theorem written_ofDecl {d : ClassDecl} (hd : d.Written) :
    ∀ e ∈ (ofDecl d).1.expressions, e.Written := by
  intro e he
  rw [ofDecl_eq] at he
  rcases List.mem_append.mp he with he | he
  · obtain ⟨_, hmethod, rfl⟩ := List.mem_map.mp he
    obtain ⟨m, hm, rfl⟩ := List.mem_map.mp hmethod
    exact hd.2 m (mem_of_mem_firsts hm)
  · obtain ⟨_, hattribute, hinit⟩ := List.mem_filterMap.mp he
    obtain ⟨i, hi, rfl⟩ := List.mem_mapIdx.mp hattribute
    exact hd.1 _ (mem_of_mem_firsts (List.getElem_mem hi)) e hinit

end ClassInfo

/-- Only the built-in classes hold markers of built-in operations. -/
theorem Hierarchy.written_of_ofProgram {h : Hierarchy} {program : List ClassDecl}
    (hh : Hierarchy.ofProgram program = (h, [])) (hw : ∀ d ∈ program, d.Written) :
    ∀ c ∈ h.userClasses, ∀ e ∈ c.expressions, e.Written := by
  intro c hc
  obtain ⟨hmem, huser⟩ := List.mem_filter.mp hc
  rcases mem_classes_cases hh hmem with hbuilt | ⟨d, hd, rfl⟩
  · rw [isReserved_of_mem_builtin c hbuilt] at huser
    cases huser
  · exact ClassInfo.written_ofDecl (hw d hd)

/-! ## Methods and attributes along the tree -/

namespace Builtin

theorem attributes_eq_nil : ∀ c ∈ classes, c.attributes = [] := by
  simp [classes, object, io, int, string, bool, build]

/-- No built-in class overrides a method of the root. -/
theorem object_method?_eq_none : ∀ c ∈ classes, c.parent = some ClassName.object →
    ∀ m ∈ c.methods, (object.method? m.name).isNone = true := by
  simp [classes, object, io, int, string, bool, build, method, ClassInfo.method?]

end Builtin

/-- The classes form a tree, those of the program are well typed, and only the built-in ones hold
markers of built-in operations. -/
structure Hierarchy.WellTyped (h : Hierarchy) : Prop where
  tree : h.IsTree
  classes : ∀ c ∈ h.userClasses, c.WellTyped h
  written : ∀ c ∈ h.userClasses, ∀ e ∈ c.expressions, e.Written

theorem Hierarchy.wellTyped_of_ofProgram {h : Hierarchy} {program : List ClassDecl}
    (hh : ofProgram program = (h, [])) (hcheck : h.typeCheck = [])
    (hwritten : ∀ d ∈ program, d.Written) : h.WellTyped :=
  ⟨isTree_of_ofProgram hh, wellTyped_of_typeCheck hcheck, written_of_ofProgram hh hwritten⟩

theorem ClassInfo.name_of_method? {c : ClassInfo} {x : String} {m : Method}
    (hm : c.method? x = some m) : m.name = x := by
  simpa using List.find?_some hm

theorem ClassInfo.name_of_attribute? {c : ClassInfo} {x : String} {a : Attribute}
    (ha : c.attribute? x = some a) : a.name = x := by
  simpa using List.find?_some ha

namespace Hierarchy

theorem IsTree.conforms_joinAll {h : Hierarchy} (ht : h.IsTree) {types : List String} {T : String}
    (hT : T ∈ types) : h.conforms T (h.joinAll types) = true := by
  cases types with
  | nil => cases hT
  | cons first rest => exact ht.conforms_foldl_join rest first T hT

namespace IsTree

variable {h : Hierarchy} {name parent owner x : String} {c : ClassInfo}

/-- Only classes of the program override methods. -/
theorem user_of_override (ht : h.IsTree) (hc : h.find? name = some c)
    (hp : c.parent = some parent) {m m' : Method} (hm : c.method? x = some m)
    (hm' : h.findMethod? parent x = some (owner, m')) : c ∈ h.userClasses := by
  rcases ht.wellNamed.builtin_or_user (mem_classes_of_find? hc) with hbuilt | huser
  · obtain rfl : parent = ClassName.object := by
      rcases eq_object_or_parent c hbuilt with rfl | hp'
      · cases hp
      · rw [hp] at hp'
        exact Option.some.inj hp'
    have hnone := Builtin.object_method?_eq_none c hbuilt hp m (List.mem_of_find?_eq_some hm)
    rw [findMethod?, ht.ancestors_object] at hm'
    rw [ClassInfo.name_of_method? hm, Option.isNone_iff_eq_none] at hnone
    simp [hnone] at hm'
  · exact huser

/-- Whatever a method keeps of the one that it overrides is kept along every path to the root. -/
theorem findMethod?_below (ht : h.IsTree) {β : Type} (view : Method → β)
    (hkeeps : ∀ {name parent c m owner m'}, h.find? name = some c → c.parent = some parent →
      c.method? x = some m → h.findMethod? parent x = some (owner, m') → view m' = view m)
    {m : Method} {D R : String} (hD : h.contains D = true) (hDR : h.conforms D R = true)
    (hm : h.findMethod? R x = some (owner, m)) :
    ∃ owner' m', h.findMethod? D x = some (owner', m') ∧ view m' = view m := by
  refine ht.induction_below (P := fun D => ∃ owner' m',
    h.findMethod? D x = some (owner', m') ∧ view m' = view m) ⟨owner, m, hm, rfl⟩ ?_ hD hDR
  rintro name parent d hd hp ⟨owner', m', hm', hview⟩
  rw [ht.findMethod?_of_parent hd hp]
  cases hown : d.method? x with
  | none => exact ⟨owner', m', hm', hview⟩
  | some own => exact ⟨d.name, own, rfl, (hkeeps hd hp hown hm').symm.trans hview⟩

end IsTree

/-- No class of the program declares an attribute again that it inherits. -/
def AttributesFresh (h : Hierarchy) : Prop :=
  ∀ c ∈ h.userClasses, ∀ a ∈ c.attributes, ∀ d ∈ (h.ancestors c.name).tail,
    d.attribute? a.name = none

namespace IsTree

variable {h : Hierarchy} {name parent x : String} {c : ClassInfo}

/-- An attribute is declared once on the way to the root. -/
theorem findAttribute?_parent_eq_none (ht : h.IsTree) (hfresh : h.AttributesFresh)
    (hc : h.find? name = some c) (hp : c.parent = some parent) {a : Attribute}
    (ha : c.attribute? x = some a) : h.findAttribute? parent x = none := by
  have hmem := List.mem_of_find?_eq_some ha
  have hname := ClassInfo.name_of_attribute? ha
  rcases ht.wellNamed.builtin_or_user (mem_classes_of_find? hc) with hbuilt | huser
  · rw [Builtin.attributes_eq_nil c hbuilt] at hmem
    cases hmem
  · have hfresh := hfresh c huser a hmem
    rw [name_of_find? hc, ht.ancestors_of_parent hc hp, List.tail_cons, hname] at hfresh
    rw [findAttribute?, List.findSome?_eq_none_iff]
    intro d hd
    rw [hfresh d hd, Option.map_none]

/-- The slot of a name in the objects of a class is the attribute of that name. -/
theorem find?_layout (ht : h.IsTree) (hfresh : h.AttributesFresh) {D : String}
    (hD : h.contains D = true) (x : String) :
    (Blueprint.ofClass h D).layout.find? (·.name == x) = (h.findAttribute? D x).map (·.2) := by
  refine ht.induction (P := fun D => (Blueprint.ofClass h D).layout.find? (·.name == x) =
    (h.findAttribute? D x).map (·.2)) ?_ ?_ hD
  · rw [Blueprint.ofClass, findAttribute?, ht.ancestors_object]
    rfl
  · intro name parent d hd hp _ ih
    rw [ht.findAttribute?_of_parent hd hp]
    simp only [Blueprint.ofClass] at ih ⊢
    rw [ht.ancestors_of_parent hd hp, Blueprint.find?_layoutOf_cons, ih]
    cases hown : d.attribute? x with
    | none => rw [Option.or_none]; rfl
    | some own =>
        rw [ht.findAttribute?_parent_eq_none hfresh hd hp hown]
        rfl

end IsTree

namespace WellTyped

variable {h : Hierarchy} {name parent owner x : String} {c : ClassInfo}

/-- A method that performs no built-in operation belongs to a class of the program. -/
theorem user_of_primitive?_eq_none (hwt : h.WellTyped) {m : Method}
    (hc : c ∈ h.classes) (hm : m ∈ c.methods) (hprim : m.primitive? = none) :
    c ∈ h.userClasses := by
  rcases hwt.tree.wellNamed.builtin_or_user hc with hbuilt | huser
  · have hall : ∀ c ∈ Builtin.classes, ∀ m ∈ c.methods, m.primitive?.isSome = true := by decide
    have := hall c hbuilt m hm
    rw [hprim] at this
    cases this
  · exact huser

/-- A method that performs a built-in operation belongs to a built-in class. -/
theorem builtin_of_primitive? (hwt : h.WellTyped) {m : Method}
    {operation : Primitive} (hc : c ∈ h.classes) (hm : m ∈ c.methods)
    (hprim : m.primitive? = some operation) : c ∈ Builtin.classes := by
  rcases hwt.tree.wellNamed.builtin_or_user hc with hbuilt | huser
  · exact hbuilt
  · have hw := hwt.written c huser m.body (List.mem_append_left _ (List.mem_map_of_mem hm))
    have hself := Expr.every_self hw
    unfold Method.primitive? at hprim
    split at hprim
    · rename_i heq
      rw [heq] at hself
      cases hself
    · cases hprim

/-- A method has the signature of the one that it overrides. -/
theorem signature_of_parent (hwt : h.WellTyped) (hc : h.find? name = some c)
    (hp : c.parent = some parent) {m m' : Method} (hm : c.method? x = some m)
    (hm' : h.findMethod? parent x = some (owner, m')) : m'.signature = m.signature := by
  have huser := hwt.tree.user_of_override hc hp hm hm'
  have hmethod := (hwt.classes c huser).methods m (List.mem_of_find?_eq_some hm)
  rw [← ClassInfo.name_of_method? hm] at hm'
  exact hmethod.overrides hp hm'

theorem attributesFresh (hwt : h.WellTyped) : h.AttributesFresh :=
  fun c hc a ha => ((hwt.classes c hc).attributes a ha).fresh

/-- **Overriding keeps signatures.** A method that a class has, every class below it has with the
same signature. -/
theorem findMethod?_of_conforms (hwt : h.WellTyped) {m : Method} {D R : String}
    (hD : h.contains D = true) (hDR : h.conforms D R = true)
    (hm : h.findMethod? R x = some (owner, m)) :
    ∃ owner' m', h.findMethod? D x = some (owner', m') ∧ m'.signature = m.signature :=
  hwt.tree.findMethod?_below Method.signature
    (fun hc hp hm hm' => hwt.signature_of_parent hc hp hm hm') hD hDR hm

/-- **Attributes are inherited as they are.** -/
theorem findAttribute?_of_conforms (hwt : h.WellTyped) {a : Attribute} {D R : String}
    (hD : h.contains D = true) (hDR : h.conforms D R = true)
    (ha : h.findAttribute? R x = some (owner, a)) : h.findAttribute? D x = some (owner, a) := by
  refine hwt.tree.induction_below (P := fun D => h.findAttribute? D x = some (owner, a))
    ha ?_ hD hDR
  intro name parent d hd hp ih
  rw [hwt.tree.findAttribute?_of_parent hd hp]
  cases hown : d.attribute? x with
  | none => exact ih
  | some own =>
      -- the class would declare again what it inherits
      have hnone := hwt.tree.findAttribute?_parent_eq_none hwt.attributesFresh hd hp hown
      rw [ih] at hnone
      cases hnone

/-- The slot of a name in the objects of a class is the attribute of that name. -/
theorem find?_layout (hwt : h.WellTyped) {D : String} (hD : h.contains D = true) (x : String) :
    (Blueprint.ofClass h D).layout.find? (·.name == x) = (h.findAttribute? D x).map (·.2) :=
  hwt.tree.find?_layout hwt.attributesFresh hD x

theorem hasAttribute_eq (hwt : h.WellTyped) {D : String} (hD : h.contains D = true) (x : String) :
    (Blueprint.ofClass h D).hasAttribute x = (h.findAttribute? D x).isSome := by
  rw [Blueprint.hasAttribute_eq, hwt.find?_layout hD, Option.isSome_map]

theorem findAttribute?_of_mem_layout (hwt : h.WellTyped) {D : String} (hD : h.contains D = true)
    {slot : Attribute} (hslot : slot ∈ (Blueprint.ofClass h D).layout) :
    ∃ owner, h.findAttribute? D slot.name = some (owner, slot) := by
  have hfind : (Blueprint.ofClass h D).layout.find? (·.name == slot.name) = some slot :=
    find?_key_eq_some (Blueprint.nodup_layoutOf _) hslot
  rw [hwt.find?_layout hD] at hfind
  obtain ⟨⟨owner, a⟩, ha, rfl⟩ := Option.map_eq_some_iff.mp hfind
  exact ⟨owner, ha⟩

theorem wellTyped_of_findAttribute? (hwt : h.WellTyped) {D : String} {a : Attribute}
    (ha : h.findAttribute? D x = some (owner, a)) :
    ∃ c ∈ h.userClasses, c.name = owner ∧ c ∈ h.ancestors D ∧ a ∈ c.attributes ∧
      a.WellTyped h c := by
  obtain ⟨c, hc, hname, hown⟩ := findAttribute?_eq_some ha
  have hmem := List.mem_of_find?_eq_some hown
  rcases hwt.tree.wellNamed.builtin_or_user (mem_classes_of_mem_ancestors hc) with hbuilt | huser
  · rw [Builtin.attributes_eq_nil c hbuilt] at hmem
    cases hmem
  · exact ⟨c, huser, hname, hc, hmem, (hwt.classes c huser).attributes a hmem⟩

theorem findAttribute?_builtin (hwt : h.WellTyped) {b : ClassInfo} (hb : b ∈ Builtin.classes)
    (x : String) : h.findAttribute? b.name x = none := by
  cases ha : h.findAttribute? b.name x with
  | none => rfl
  | some found =>
      obtain ⟨c, huser, -, hc, -, -⟩ := hwt.wellTyped_of_findAttribute? ha
      have hreserved := (List.mem_filter.mp huser).2
      rw [hwt.tree.isReserved_of_mem_ancestors hb hc] at hreserved
      cases hreserved

end WellTyped

end Hierarchy

/-- A call finds the method that the checker found, if the arity is right. -/
theorem Blueprint.findMethod?_of_findMethod? {h : Hierarchy} {D x owner : String} {m : Method}
    (hm : h.findMethod? D x = some (owner, m)) :
    (Blueprint.ofClass h D).findMethod? x m.arity = some m := by
  simp only [Hierarchy.findMethod?, Blueprint.ofClass, findMethod?] at hm ⊢
  generalize h.ancestors D = cs at hm ⊢
  induction cs with
  | nil => cases hm
  | cons c cs ih =>
      rw [List.findSome?_cons] at hm ⊢
      cases hown : c.method? x with
      | none =>
          rw [hown] at hm
          exact ih hm
      | some own =>
          rw [hown] at hm
          cases hm
          have hkeep : (some m).filter (·.arity == m.arity) = some m := by
            rw [Option.filter_some, if_pos (beq_self_eq_true _)]
          rw [hkeep]

/-- A call finds nothing where the checker finds nothing, whatever the number of its arguments. -/
theorem Blueprint.findMethod?_eq_none_of_findMethod? {h : Hierarchy} {D x : String}
    (hnone : h.findMethod? D x = none) (arity : Nat) :
    (Blueprint.ofClass h D).findMethod? x arity = none := by
  rw [Hierarchy.findMethod?, List.findSome?_eq_none_iff] at hnone
  rw [findMethod?, List.findSome?_eq_none_iff]
  intro c hc
  rw [Option.map_eq_none_iff.mp (hnone c hc)]
  rfl

end CoolLang
