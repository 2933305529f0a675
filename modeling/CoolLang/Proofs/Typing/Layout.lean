import CoolLang.Proofs.Hierarchy.Accounts
import CoolLang.Proofs.Typing.Override

/-!
# The layout of objects

An object of a class begins as an object of its parent does, and goes on with the attributes of the
class itself in the order of their declarations. That none of them is left out takes two checks: no
class declares a name twice, and none declares again what it inherits. As in the look-up of methods
it is enough that the type check has found nothing fatal.
-/

namespace CoolLang

/-- The attributes that a program declares in the class of the name, in the order of the text. -/
def declaredAttributes (program : List ClassDecl) (name : String) : List AttributeDecl :=
  ((program.find? (·.name == name)).map (·.attributes)).getD []

/-! ## Classes without complaints -/

theorem ClassDecl.attributes_described {d : ClassDecl} (hclean : d.repetitions = []) :
    d.described.attributes = d.attributes.mapIdx (fun i a => a.numbered i) ∧
      (d.described.attributes.map (·.name)).Nodup := by
  have hnames : d.described.attributes.map (·.name) =
      (firsts (·.name) d.attributes).map (·.name) := by
    apply List.ext_getElem <;> simp [described, withFeatures, AttributeDecl.numbered]
  refine ⟨?_, hnames ▸ nodup_firsts _ _⟩
  rw [described_of_repetitions_eq_nil hclean]
  rfl

namespace Hierarchy

variable {h : Hierarchy} {program : List ClassDecl} {c : ClassInfo}

/-- A class has the attributes that the program declares, each name once. A built-in class has
none. -/
theorem attributes_of_ofProgram (hh : ofProgram program = (h, [])) (hc : c ∈ h.classes) :
    c.attributes = (declaredAttributes program c.name).mapIdx (fun i a => a.numbered i) ∧
      (c.attributes.map (·.name)).Nodup := by
  obtain ⟨hclasses, hclean⟩ := registered_of_ofProgram hh
  have hnodup := (isTree_of_ofProgram hh).nodup
  rw [hclasses, List.map_append, List.map_map, List.nodup_append] at hnodup
  obtain ⟨-, hnames, hapart⟩ := hnodup
  rw [hclasses] at hc
  rcases List.mem_append.mp hc with hbuilt | hdeclared
  · have hnone : program.find? (·.name == c.name) = none := by
      rw [List.find?_eq_none]
      intro d hd hname
      refine hapart _ (List.mem_map_of_mem hbuilt) _ (List.mem_map_of_mem hd) ?_
      simpa using (beq_iff_eq.mp hname).symm
    rw [declaredAttributes, hnone, Builtin.attributes_eq_nil c hbuilt]
    exact ⟨rfl, List.nodup_nil⟩
  · obtain ⟨d, hd, rfl⟩ := List.mem_map.mp hdeclared
    have hfind : program.find? (·.name == d.described.name) = some d :=
      find?_key_eq_some hnames hd
    rw [declaredAttributes, hfind]
    exact ClassDecl.attributes_described (hclean d hd)

end Hierarchy

/-! ## What a check without fatal complaints says of attributes -/

open Check

theorem clears_fresh_checkAttribute (h : Hierarchy) (c : ClassInfo) (a : Attribute) :
    Clears (checkAttribute h c a)
      (∀ d ∈ (h.ancestors c.name).tail, d.attribute? a.name = none) := by
  refine .skip (.of_finds (Finds.requireBindable _ _ _)) fun _ => ?_
  refine .skip (.of_finds (Finds.declaredType h _ _)) fun D => ?_
  have hinit := Clears.of_finds
    (finds_checkInitializer h s!"initializer of attribute {a.name}" D a.init)
  dsimp only
  split
  · exact (Clears.report _ rfl).andThen fun _ => hinit
  · rename_i hfresh
    refine hinit.mono fun _ d hd => ?_
    simpa using List.find?_eq_none.mp hfresh d hd

theorem clears_fresh_checkClass (h : Hierarchy) (c : ClassInfo) :
    Clears (checkClass h c)
      (∀ a ∈ c.attributes, ∀ d ∈ (h.ancestors c.name).tail, d.attribute? a.name = none) := by
  have hattributes := Clears.forM (clears_fresh_checkAttribute h c) c.attributes
  have hmethods := (Clears.forM (clears_checkMethod h c) c.methodsInOrder).mono fun _ => trivial
  intro s
  have hboth := hattributes.andThen (fun _ => hmethods) { s with currentClass := c.name }
  rw [← checkClass_apply] at hboth
  exact hboth

/-! ## Layouts -/

/-- Attributes with names of their own are all added, in their order. -/
theorem Blueprint.extendLayout_eq_append {attributes : List Attribute} :
    ∀ {layout : List Attribute}, (attributes.map (·.name)).Nodup →
      (∀ a ∈ attributes, layout.find? (·.name == a.name) = none) →
      extendLayout layout attributes = layout ++ attributes := by
  induction attributes with
  | nil => intro layout _ _; exact (List.append_nil layout).symm
  | cons a attributes ih =>
      intro layout hnodup hnew
      rw [List.map_cons, List.nodup_cons] at hnodup
      rw [List.forall_mem_cons] at hnew
      have hold : ¬ layout.any (·.name == a.name) = true := by
        simpa [List.find?_eq_none] using hnew.1
      rw [extendLayout, List.foldl_cons, if_neg hold, ← extendLayout, ih hnodup.2,
        List.append_assoc, List.singleton_append]
      intro a' ha'
      have hne : a.name ≠ a'.name := fun heq => hnodup.1 (heq ▸ List.mem_map_of_mem ha')
      rw [List.find?_append, hnew.2 a' ha']
      simpa using hne

namespace Hierarchy

variable {h : Hierarchy} {program : List ClassDecl}

theorem attributesFresh_of_typeCheck (hcheck : ∀ d ∈ h.typeCheck, d.isFatal = false) :
    h.AttributesFresh :=
  (Clears.forM (clears_fresh_checkClass h) h.userClasses Checker.initial).2 hcheck

/-- The objects of a class begin with the slots of the parent and go on with those of the class. -/
theorem IsTree.layout_of_parent (ht : h.IsTree) (hfresh : h.AttributesFresh) {D C : String}
    {c : ClassInfo} (hc : h.find? D = some c) (hp : c.parent = some C)
    (hC : h.contains C = true) (hnodup : (c.attributes.map (·.name)).Nodup) :
    (Blueprint.ofClass h D).layout = (Blueprint.ofClass h C).layout ++ c.attributes := by
  have hextend : (Blueprint.ofClass h D).layout =
      Blueprint.extendLayout (Blueprint.ofClass h C).layout c.attributes := by
    simp only [Blueprint.ofClass]
    rw [ht.ancestors_of_parent hc hp, Blueprint.layoutOf_cons]
  rw [hextend]
  refine Blueprint.extendLayout_eq_append hnodup fun a ha => ?_
  have hown : c.attribute? a.name = some a := find?_key_eq_some hnodup ha
  rw [ht.find?_layout hfresh hC, ht.findAttribute?_parent_eq_none hfresh hc hp hown]
  rfl

/-- **Layouts extend the parent's and agree with the checker.** Let validation find nothing wrong
and the type check nothing fatal, and let `C` be the parent of `D`. The objects of `D` have the
slots of `C` followed by all attributes that the program declares in `D`, in the order of the text.
No two slots share a name, and the slot of a name is the attribute that the checker finds on `D`, if
it finds one; otherwise there is none. -/
theorem layout_extends_parent (hh : ofProgram program = (h, []))
    (hcheck : ∀ d ∈ h.typeCheck, d.isFatal = false) {C D : String} (hp : h.parent? D = some C) :
    ∃ b b', (ClassTable.ofHierarchy h).find? D = some b ∧
      (ClassTable.ofHierarchy h).find? C = some b' ∧
      b.layout = b'.layout ++ (declaredAttributes program D).mapIdx (fun i a => a.numbered i) ∧
      (b.layout.map (·.name)).Nodup ∧
      ∀ x, (h.findAttribute? D x).isSome = b.hasAttribute x ∧
        ∀ owner a, h.findAttribute? D x = some (owner, a) →
          b.layout.find? (·.name == x) = some a := by
  have ht := isTree_of_ofProgram hh
  have hfresh := attributesFresh_of_typeCheck hcheck
  obtain ⟨c, hc, hp⟩ := Option.bind_eq_some_iff.mp hp
  have hD := contains_of_find? hc
  have hC := ht.contains_parent hc hp
  obtain ⟨hattributes, hnodup⟩ := attributes_of_ofProgram hh (mem_classes_of_find? hc)
  refine ⟨_, _, ClassTable.find?_ofHierarchy_of_contains hD,
    ClassTable.find?_ofHierarchy_of_contains hC, ?_, Blueprint.nodup_layoutOf _, fun x => ?_⟩
  · rw [ht.layout_of_parent hfresh hc hp hC hnodup, hattributes, name_of_find? hc]
  · have hslot := ht.find?_layout hfresh hD x
    refine ⟨?_, fun owner a ha => ?_⟩
    · rw [Blueprint.hasAttribute_eq, hslot, Option.isSome_map]
    · rw [hslot, ha]
      rfl

/-- Letters and parcels. A parcel adds two attributes to the one of a letter, with a method between
them. -/
def mail : List ClassDecl :=
  let slot (name type : String) (init : Option Expr) : Feature :=
    .attr ⟨name, type, init, .nowhere⟩
  [⟨"Letter", none, [slot "address" "String" none], .nowhere⟩,
    ⟨"Parcel", some "Letter",
      [slot "weight" "Int" (some (.int 2 .nowhere)),
        .method ⟨"weigh", [], "Int", .name "weight" .nowhere, .nowhere⟩,
        slot "insured" "Bool" none], .nowhere⟩,
    ⟨ClassName.mainClass, none,
      [.method ⟨mainMethod, [], ClassName.int, .int 0 .nowhere, .nowhere⟩], .nowhere⟩]

/-- A parcel has the slot of a letter and then its own two. The address is found where letters have
it. -/
theorem layout_extends_parent_mail :
    ∃ h b b', ofProgram mail = (h, []) ∧ (∀ d ∈ h.typeCheck, d.isFatal = false) ∧
      h.parent? "Parcel" = some "Letter" ∧ (ClassTable.ofHierarchy h).find? "Parcel" = some b ∧
      (ClassTable.ofHierarchy h).find? "Letter" = some b' ∧
      (∃ own, b.layout = b'.layout ++ own ∧ own.map (·.name) = ["weight", "insured"]) ∧
      (h.findAttribute? "Parcel" "address").isSome = true ∧ b.hasAttribute "address" = true ∧
      b.hasAttribute "colour" = false := by
  have hnil : (ofProgram mail).2 = [] := by decide +kernel
  have hh : ofProgram mail = ((ofProgram mail).1, []) := by rw [← hnil]
  have hcheck : ∀ d ∈ (ofProgram mail).1.typeCheck, d.isFatal = false := by decide +kernel
  have hp : (ofProgram mail).1.parent? "Parcel" = some "Letter" := by decide +kernel
  obtain ⟨b, b', hb, hb', hlayout, -, hslots⟩ := layout_extends_parent hh hcheck hp
  have haddress : ((ofProgram mail).1.findAttribute? "Parcel" "address").isSome = true := by
    decide +kernel
  have hcolour : ((ofProgram mail).1.findAttribute? "Parcel" "colour").isSome = false := by
    decide +kernel
  exact ⟨_, b, b', hh, hcheck, hp, hb, hb', ⟨_, hlayout, by decide +kernel⟩, haddress,
    (hslots "address").1 ▸ haddress, (hslots "colour").1 ▸ hcolour⟩

end Hierarchy

end CoolLang
