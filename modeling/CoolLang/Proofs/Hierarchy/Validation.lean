import CoolLang.Proofs.Hierarchy.Accounts

/-!
# Validation of the graph

The graph of parents is complained about in three ways: a parent is not known, a parent may not be
inherited from, a class is on a cycle. Whatever else is wrong with a program, the three are absent
exactly where the classes that were registered form a tree.
-/

namespace CoolLang

/-- Whether the cause is one of the three that speak of parents. -/
def Cause.isGraphViolation : Cause → Bool
  | .undefinedParent .. | .illegalInheritance .. | .inheritanceCycle .. => true
  | _ => false

namespace Diagnostic

/-- None of the diagnostics speaks of parents. -/
def NoGraphViolation (ds : List Diagnostic) : Prop :=
  ∀ d ∈ ds, d.cause.isGraphViolation = false

variable {d : Diagnostic} {ds es : List Diagnostic}

theorem noGraphViolation_nil : NoGraphViolation [] := nofun

theorem noGraphViolation_cons :
    NoGraphViolation (d :: ds) ↔ d.cause.isGraphViolation = false ∧ NoGraphViolation ds :=
  List.forall_mem_cons

theorem noGraphViolation_append :
    NoGraphViolation (ds ++ es) ↔ NoGraphViolation ds ∧ NoGraphViolation es :=
  List.forall_mem_append

end Diagnostic

open Diagnostic

/-! ## Other complaints -/

theorem Cause.isGraphViolation_of_isRepetition {cause : Cause} (h : cause.isRepetition = true) :
    cause.isGraphViolation = false := by
  cases cause <;> first | rfl | cases h

namespace Hierarchy

open Relation

variable {h : Hierarchy} {c : ClassInfo} {name : String} {program : List ClassDecl}

theorem noGraphViolation_repetitions (program : List ClassDecl) :
    NoGraphViolation (repetitions program) :=
  fun _ hd => Cause.isGraphViolation_of_isRepetition (isRepetition_of_mem_repetitions hd)

theorem noGraphViolation_mainViolation? (h : Hierarchy) :
    NoGraphViolation h.mainViolation?.toList := by
  have hsingle : ∀ cause position, cause.isGraphViolation = false →
      NoGraphViolation (some (⟨cause, position⟩ : Diagnostic)).toList := by
    intro cause position hcause
    exact noGraphViolation_cons.mpr ⟨hcause, noGraphViolation_nil⟩
  unfold mainViolation?
  split
  · exact hsingle _ _ rfl
  · split
    · split
      · exact hsingle _ _ rfl
      · split
        · exact noGraphViolation_nil
        · exact hsingle _ _ rfl
    · exact noGraphViolation_nil

/-! ## Complaints about parents -/

theorem isGraphViolation_parentViolation? {d : Diagnostic}
    (hd : h.parentViolation? c = some d) : d.cause.isGraphViolation = true := by
  unfold parentViolation? at hd
  split at hd
  · cases hd
  · split at hd
    · cases hd
      rfl
    · split at hd
      · cases hd
        rfl
      · cases hd

/-- The complaints about parents are those about the parent of a class and those about a class on a
cycle. -/
theorem noGraphViolation_ofProgram_iff : NoGraphViolation (ofProgram program).2 ↔
    (∀ c ∈ (ofProgram program).1.userClasses, (ofProgram program).1.parentViolation? c = none) ∧
    (ofProgram program).1.cyclic = [] := by
  rw [diagnostics_ofProgram, violations, noGraphViolation_append, noGraphViolation_append,
    noGraphViolation_append]
  constructor
  · rintro ⟨-, ⟨hparents, hcycles⟩, -⟩
    constructor
    · intro c hc
      cases hviolation : (ofProgram program).1.parentViolation? c with
      | none => rfl
      | some d =>
          have hfalse := hparents d (List.mem_filterMap.mpr ⟨c, hc, hviolation⟩)
          rw [isGraphViolation_parentViolation? hviolation] at hfalse
          cases hfalse
    · rw [List.eq_nil_iff_forall_not_mem]
      intro name hname
      have hfalse := hcycles _ (List.mem_map_of_mem hname)
      cases hfalse
  · rintro ⟨hparents, hcycles⟩
    refine ⟨noGraphViolation_repetitions program, ⟨?_, ?_⟩,
      noGraphViolation_mainViolation? _⟩
    · rw [List.filterMap_eq_nil_iff.mpr hparents]
      exact noGraphViolation_nil
    · rw [hcycles]
      exact noGraphViolation_nil

/-- The parent of the class is known and may be inherited from. -/
def HasLegalParent (h : Hierarchy) (c : ClassInfo) : Prop :=
  ∃ parent, c.parent = some parent ∧ h.contains parent = true ∧ parent ∉ ClassName.finals ∧
    parent ≠ ClassName.selfType

theorem HasLegalParent.parentViolation?_eq_none (hc : h.HasLegalParent c) :
    h.parentViolation? c = none := by
  obtain ⟨parent, hp, hknown, hfinal, hself⟩ := hc
  have hlegal : ¬ (ClassName.finals.contains parent || parent == ClassName.selfType) = true := by
    simp [hfinal, hself]
  simp only [parentViolation?, hp]
  rw [if_neg hlegal, if_neg (by simp [hknown])]

/-! ## Paths to the root -/

/-- The ancestors of a class are a path to the root: it starts at the class, goes on from each class
to its parent and passes none twice. -/
structure RootPath (h : Hierarchy) (name : String) : Prop where
  start : ((h.ancestors name).map (·.name)).head? = some name
  steps : ((h.ancestors name).map (·.name)).IsChain h.Inherits
  nodup : ((h.ancestors name).map (·.name)).Nodup
  root : ((h.ancestors name).map (·.name)).getLast? = some ClassName.object

/-- Parents are known and may be inherited from, and every class has a path to the root. -/
structure Legal (h : Hierarchy) : Prop where
  parents : ∀ c ∈ h.userClasses, h.HasLegalParent c
  paths : ∀ c ∈ h.classes, h.RootPath c.name

/-- The graph of inheritance is a tree with the root class at its root, and among its leaves are the
classes that may not be inherited from. -/
structure RootedTree (h : Hierarchy) : Prop where
  root : ∀ a, ¬ h.Inherits ClassName.object a
  parent : ∀ a, h.contains a = true → a ≠ ClassName.object → ∃! b, h.Inherits a b
  acyclic : ∀ a, ¬ TransGen h.Inherits a a
  reaches : ∀ a, h.contains a = true → ReflTransGen h.Inherits a ClassName.object
  leaves : ∀ a b, h.Inherits a b → b ∉ ClassName.finals

namespace IsTree

theorem getLast?_ancestors (ht : h.IsTree) (hname : h.contains name = true) :
    ((h.ancestors name).map (·.name)).getLast? = some ClassName.object := by
  have hroot := ht.reachesRoot_of_contains hname
  rw [reachesRoot] at hroot
  rw [List.getLast?_map]
  cases hlast : (h.ancestors name).getLast? with
  | none =>
      rw [hlast] at hroot
      cases hroot
  | some d =>
      rw [hlast] at hroot
      have hd : d.name = ClassName.object := by simpa using hroot
      rw [Option.map_some, hd]

theorem legal (ht : h.IsTree) : h.Legal := by
  constructor
  · intro c hc
    obtain ⟨hmem, huser⟩ := List.mem_filter.mp hc
    rcases ht.parent c hmem with rfl | ⟨parent, hp, hknown, hfinal⟩
    · cases huser
    · exact ⟨parent, hp, hknown, hfinal, ht.wellNamed.ne_selfType hknown⟩
  · intro c hc
    have hname := contains_of_mem hc
    exact ⟨head?_ancestors hname, h.isChain_ancestors _, h.nodup_ancestors _,
      ht.getLast?_ancestors hname⟩

theorem rootedTree (ht : h.IsTree) : h.RootedTree := by
  constructor
  · exact ht.wellNamed.not_inherits_object
  · intro a ha hne
    obtain ⟨c, hc⟩ := exists_find?_of_contains ha
    rcases ht.parent c (mem_classes_of_find? hc) with rfl | ⟨parent, hp, hknown, -⟩
    · exact absurd (name_of_find? hc).symm hne
    · have hparent : h.Inherits a parent := ⟨c, hc, hp, hknown⟩
      exact ⟨parent, hparent, fun b hb => rightUnique_inherits h hb hparent⟩
  · exact ht.not_onCycle
  · intro a ha
    exact ht.reaches_object ha
  · rintro a b ⟨c, hc, hp, -⟩
    rcases ht.parent c (mem_classes_of_find? hc) with rfl | ⟨parent, hp', -, hfinal⟩
    · cases hp
    · rw [hp] at hp'
      cases hp'
      exact hfinal

end IsTree

/-- A class on a cycle has no path to the root, for the root would lead back to it. -/
theorem Legal.cyclic_eq_nil (hlegal : h.Legal) (hnamed : h.WellNamed) : h.cyclic = [] := by
  rw [List.eq_nil_iff_forall_not_mem]
  intro name hname
  have hcycle := mem_cyclic_iff.mp hname
  obtain ⟨parent, hparent, -⟩ := TransGen.head'_iff.mp hcycle
  obtain ⟨c, hc⟩ := exists_find?_of_contains hparent.contains_left
  have hpath := hlegal.paths c (mem_classes_of_find? hc)
  rw [name_of_find? hc] at hpath
  have hobject := (mem_ancestors_iff.mp (List.mem_of_getLast? hpath.root)).2
  have hback := hnamed.eq_object (leads_back hcycle hobject)
  rw [hback] at hparent
  exact hnamed.not_inherits_object parent hparent

theorem RootedTree.hasLegalParent (ht : h.RootedTree) (hnamed : h.WellNamed)
    (hc : c ∈ h.userClasses) : h.HasLegalParent c := by
  obtain ⟨hmem, huser⟩ := List.mem_filter.mp hc
  have hne : c.name ≠ ClassName.object := by
    intro heq
    rw [heq] at huser
    cases huser
  obtain ⟨parent, hparent, -⟩ := ht.parent c.name (contains_of_mem hmem) hne
  have hknown := hparent.contains_right
  exact ⟨parent, hparent.parent_eq (hnamed.find?_of_mem hmem), hknown, ht.leaves _ _ hparent,
    hnamed.ne_selfType hknown⟩

/-- **Validation accepts exactly the trees.** For every program, whatever else is wrong with it:
nothing is said about parents if and only if they are all known and may be inherited from and the
ancestors of every class are a path to the root; and if and only if the graph of inheritance is a
tree with the root class at its root, where nothing lies below a class that may not be inherited
from. -/
theorem validation_exact (program : List ClassDecl) :
    (NoGraphViolation (ofProgram program).2 ↔ (ofProgram program).1.Legal) ∧
    (NoGraphViolation (ofProgram program).2 ↔ (ofProgram program).1.RootedTree) := by
  have hnamed := wellNamed_ofProgram program
  have htree : NoGraphViolation (ofProgram program).2 → (ofProgram program).1.IsTree := by
    intro hnone
    obtain ⟨hparents, hcyclic⟩ := noGraphViolation_ofProgram_iff.mp hnone
    exact isTree_of_legal hparents hcyclic
  refine ⟨⟨fun hnone => (htree hnone).legal, fun hlegal => ?_⟩,
    ⟨fun hnone => (htree hnone).rootedTree, fun hrooted => ?_⟩⟩
  · refine noGraphViolation_ofProgram_iff.mpr ⟨?_, hlegal.cyclic_eq_nil hnamed⟩
    intro c hc
    exact (hlegal.parents c hc).parentViolation?_eq_none
  · refine noGraphViolation_ofProgram_iff.mpr ⟨?_, ?_⟩
    · intro c hc
      exact (hrooted.hasLegalParent hnamed hc).parentViolation?_eq_none
    · rw [List.eq_nil_iff_forall_not_mem]
      intro name hname
      exact hrooted.acyclic name (mem_cyclic_iff.mp hname)

end Hierarchy

end CoolLang
