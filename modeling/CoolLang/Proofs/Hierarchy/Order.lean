import CoolLang.Proofs.Hierarchy.Cycle
import CoolLang.Proofs.Hierarchy.Outline

/-!
# The order of classes

Where no two declarations share a name, each is registered or refused on its own account, so the
order of the declarations settles the order of the classes and nothing else. Two hierarchies of the
same classes in different orders find the same ones by name, and the same is wrong with them.
-/

namespace CoolLang

@[simp] theorem ClassInfo.name_ofDecl (d : ClassDecl) : (ofDecl d).1.name = d.name := rfl

namespace Hierarchy

/-! ## Registration of different names -/

/-- Whether the class may be registered, whatever there is already. -/
def registrable (d : ClassDecl) : Bool :=
  !ClassName.isReserved d.name

/-- What becomes of a declaration whose name is not taken. -/
def registrationOf (d : ClassDecl) : Registration where
  complaints := (ClassInfo.ofDecl d).2
  refusal := if registrable d then none else some ⟨.builtinRedefinition d.name, d.span.start⟩

theorem contains_append (cs ds : List ClassInfo) (name : String) :
    contains ⟨cs ++ ds⟩ name = (contains ⟨cs⟩ name || contains ⟨ds⟩ name) := by
  simp only [contains, find?, List.find?_append]
  cases cs.find? (·.name == name) <;> rfl

theorem contains_singleton (c : ClassInfo) (name : String) :
    contains ⟨[c]⟩ name = (c.name == name) := by
  rw [contains, find?, List.find?_singleton]
  cases c.name == name <;> rfl

theorem register_of_reserved (h : Hierarchy) {d : ClassDecl} (hd : registrable d = false) :
    h.register (ClassInfo.ofDecl d).1 = .error ⟨.builtinRedefinition d.name, d.span.start⟩ := by
  have hreserved : ClassName.isReserved (ClassInfo.ofDecl d).1.name = true := by
    simpa [registrable] using hd
  rw [register, if_pos hreserved]
  rfl

theorem register_of_new {h : Hierarchy} {d : ClassDecl} (hd : registrable d = true)
    (hnew : h.contains d.name = false) :
    h.register (ClassInfo.ofDecl d).1 = .ok ⟨h.classes ++ [(ClassInfo.ofDecl d).1]⟩ := by
  have hreserved : ¬ ClassName.isReserved (ClassInfo.ofDecl d).1.name = true := by
    simpa [registrable] using hd
  have htaken : ¬ h.contains (ClassInfo.ofDecl d).1.name = true := by
    simpa using hnew
  rw [register, if_neg hreserved, if_neg htaken]

/-- **Different names do not get in each other's way.** -/
theorem registerAll_of_nodup (ds : List ClassDecl) : ∀ h : Hierarchy, (ds.map (·.name)).Nodup →
    (∀ d ∈ ds, registrable d = true → h.contains d.name = false) →
    h.registerAll ds =
      (⟨h.classes ++ (ds.filter registrable).map (ClassInfo.ofDecl · |>.1)⟩,
        ds.map registrationOf) := by
  induction ds with
  | nil =>
      intro h _ _
      rw [List.filter_nil, List.map_nil, List.append_nil]
      rfl
  | cons d ds ih =>
      intro h hnodup hnew
      rw [List.map_cons, List.nodup_cons] at hnodup
      cases hd : registrable d with
      | false =>
          have hrest := ih h hnodup.2 fun d' hd' => hnew d' (List.mem_cons_of_mem d hd')
          simp only [registerAll, register_of_reserved h hd, hrest, List.map_cons, registrationOf,
            hd, List.filter_cons]
          rfl
      | true =>
          have hreg := register_of_new hd (hnew d List.mem_cons_self hd)
          have hrest := ih ⟨h.classes ++ [(ClassInfo.ofDecl d).1]⟩ hnodup.2 ?_
          · simp only [registerAll, hreg, hrest, List.map_cons, registrationOf, hd,
              List.filter_cons, List.append_assoc]
            rfl
          -- the class that has come in does not take the name of a later one
          · intro d' hd' hregistrable
            have hne : d.name ≠ d'.name := fun heq => hnodup.1 (heq ▸ List.mem_map_of_mem hd')
            rw [contains_append, hnew d' (List.mem_cons_of_mem d hd') hregistrable,
              contains_singleton]
            simpa using hne

theorem contains_initial_of_registrable {d : ClassDecl} (hd : registrable d = true) :
    initial.contains d.name = false := by
  cases hknown : initial.contains d.name with
  | false => rfl
  | true =>
      obtain ⟨c, hc⟩ := exists_find?_of_contains hknown
      have hreserved := isReserved_of_mem_builtin c (mem_classes_of_find? hc)
      rw [name_of_find? hc] at hreserved
      rw [registrable, hreserved] at hd
      cases hd

/-! ## The same classes in another order -/

variable {h h' : Hierarchy}

theorem find?_of_perm (hh : h.WellNamed) (hperm : h.classes.Perm h'.classes) (name : String) :
    h.find? name = h'.find? name := by
  have hnodup : (h'.classes.map (·.name)).Nodup := (hperm.map _).nodup_iff.mp hh.nodup
  cases hc : h.find? name with
  | some c =>
      rw [← name_of_find? hc]
      exact (find?_key_eq_some hnodup (hperm.mem_iff.mp (mem_classes_of_find? hc))).symm
  | none =>
      cases hc' : h'.find? name with
      | none => rfl
      | some c =>
          have hknown := hh.find?_of_mem (hperm.mem_iff.mpr (mem_classes_of_find? hc'))
          rw [name_of_find? hc', hc] at hknown
          cases hknown

/-- The hierarchies hold as many classes, and find the same ones by name. -/
structure Agree (h h' : Hierarchy) : Prop where
  find? : ∀ name, h.find? name = h'.find? name
  length : h.classes.length = h'.classes.length

namespace Agree

theorem sameOutline (hh : h.Agree h') : h.SameOutline h' :=
  ⟨fun name => by rw [hh.find?], hh.length⟩

theorem ancestors (hh : h.Agree h') (name : String) : h.ancestors name = h'.ancestors name := by
  have hlineage : ∀ n name, h.lineage n name = h'.lineage n name := by
    intro n
    induction n with
    | zero => intro name; rfl
    | succ n ih =>
        intro name
        simp only [lineage, hh.find?, ih]
  rw [Hierarchy.ancestors, Hierarchy.ancestors, hh.length, hlineage]

end Agree

theorem agree_of_perm (hh : h.WellNamed) (hperm : h.classes.Perm h'.classes) : h.Agree h' :=
  ⟨find?_of_perm hh hperm, hperm.length_eq⟩

theorem SameOutline.perm_cyclic (hh : h.SameOutline h') : h.cyclic.Perm h'.cyclic := by
  have hinherits : h.Inherits = h'.Inherits := by
    funext a b
    rw [inherits_iff, inherits_iff, hh.knownParent?]
  rw [List.perm_ext_iff_of_nodup h.nodup_cyclic h'.nodup_cyclic]
  intro name
  rw [mem_cyclic_iff, mem_cyclic_iff, hinherits]

theorem violations_of_perm (hh : h.WellNamed) (hperm : h.classes.Perm h'.classes) :
    h.violations.Perm h'.violations := by
  have houtline := (agree_of_perm hh hperm).sameOutline
  unfold violations
  rw [houtline.parentViolation?, houtline.cycleViolation, houtline.mainViolation?]
  refine List.Perm.append (List.Perm.append ?_ ?_) (List.Perm.refl _)
  · exact (hperm.filter _).filterMap _
  · exact houtline.perm_cyclic.map _

/-! ## The same declarations in another order -/

variable {program program' : List ClassDecl}

theorem ofProgram_of_nodup (hnames : (program.map (·.name)).Nodup) :
    ofProgram program =
      (⟨Builtin.classes ++ (program.filter registrable).map (ClassInfo.ofDecl · |>.1)⟩,
        (program.map registrationOf).flatMap (·.diagnostics) ++
          (ofProgram program).1.violations) := by
  have hall := registerAll_of_nodup program initial hnames
    fun d _ hd => contains_initial_of_registrable hd
  simp only [ofProgram, hall]
  rfl

theorem perm_classes_ofProgram (hperm : program.Perm program')
    (hnames : (program.map (·.name)).Nodup) :
    (ofProgram program).1.classes.Perm (ofProgram program').1.classes := by
  have hnames' : (program'.map (·.name)).Nodup := (hperm.map _).nodup_iff.mp hnames
  rw [ofProgram_of_nodup hnames, ofProgram_of_nodup hnames']
  exact ((hperm.filter _).map _).append_left _

theorem perm_diagnostics_ofProgram (hperm : program.Perm program')
    (hnames : (program.map (·.name)).Nodup) :
    (ofProgram program).2.Perm (ofProgram program').2 := by
  have hnames' : (program'.map (·.name)).Nodup := (hperm.map _).nodup_iff.mp hnames
  have hviolations := violations_of_perm (wellNamed_ofProgram program)
    (perm_classes_ofProgram hperm hnames)
  rw [ofProgram_of_nodup hnames, ofProgram_of_nodup hnames']
  exact ((hperm.map _).flatMap_right _).append hviolations

end Hierarchy

end CoolLang
