import CoolLang.Proofs.Evaluation.Termination
import CoolLang.Proofs.Program.Heap
import CoolLang.Proofs.Typing.Instantiation

/-!
# How deep constructions nest

In a program that passed validation and the type check, objects are only asked of classes that there
are. The classes under construction are different ones that the program declares, so they cannot be
more than it declares, and a limit of that many is never in the way.
-/

namespace CoolLang

variable {h : Hierarchy} {p : Program}

/-- The classes under construction are declared by the program. -/
def Machine.ConstructsUser (h : Hierarchy) (m : Machine) : Prop :=
  ∀ name ∈ m.constructing, name ∈ h.userClasses.map (·.name)

theorem Hierarchy.WellNamed.mem_userClasses (hh : h.WellNamed) {name : String}
    (hname : h.contains name = true) (huser : name ∉ ClassName.builtins) :
    name ∈ h.userClasses.map (·.name) := by
  obtain ⟨c, hc⟩ := exists_find?_of_contains hname
  have hcname := name_of_find? hc
  rcases hh.builtin_or_user (mem_classes_of_find? hc) with hbuiltin | hc
  · refine absurd ?_ huser
    rw [← Builtin.map_name_classes, ← hcname]
    exact List.mem_map_of_mem hbuiltin
  · exact List.mem_map.mpr ⟨c, hc, hcname⟩

theorem Machine.invariant_constructsUser (hh : h.WellNamed) (hp : p.classes = .ofHierarchy h) :
    Invariant p (ConstructsUser h) where
  write _ hm := hm
  read hm := hm
  create _ hm := hm
  copy _ hm := hm
  addCell _ hm := hm
  setCell _ _ hm := hm
  setField _ _ _ hm := hm
  call _ hm := hm
  callEnd hm := hm
  construction hb huser _ _ hm := by
    rw [hp] at hb
    obtain ⟨hknown, -⟩ := ClassTable.find?_ofHierarchy_eq_some hb
    exact List.forall_mem_cons.mpr ⟨hh.mem_userClasses hknown huser, hm⟩
  constructionEnd hm := fun name hname => hm name (List.mem_of_mem_tail hname)

/-- The machine of a run of an accepted program. -/
def Machine.Accepted (h : Hierarchy) (p : Program) (m : Machine) : Prop :=
  m.store.Shaped h ∧ m.Guarded p ∧ m.ConstructsUser h

theorem Machine.invariant_accepted (hh : h.WellNamed) (hp : p.classes = .ofHierarchy h) :
    Invariant p (Accepted h p) :=
  (invariant_shaped hp).and ((invariant_guarded p).and (invariant_constructsUser hh hp))

/-- One more class is under construction only if the program declares one more. -/
theorem Machine.Accepted.length_lt {m : Machine} (hm : m.Accepted h p) (hh : h.WellNamed)
    {name : String} (hname : h.contains name = true) (huser : name ∉ ClassName.builtins)
    (hfresh : name ∉ m.constructing) : m.constructing.length < h.userClasses.length := by
  obtain ⟨-, hguarded, hconstructs⟩ := hm
  have hnodup : (name :: m.constructing).Nodup := List.nodup_cons.mpr ⟨hfresh, hguarded.nodup⟩
  have hsub : name :: m.constructing ⊆ h.userClasses.map (·.name) :=
    List.forall_mem_cons.mpr ⟨hh.mem_userClasses hname huser, hconstructs⟩
  have hlength := (List.subperm_of_subset hnodup hsub).length_le
  rw [List.length_map, List.length_cons] at hlength
  exact hlength

/-- Evaluation did not stop because constructions were nested too deep. -/
def Halt.IsNotDepth : Halt → Prop
  | .fault d => d.cause.isConstructionDepth = false
  | .outOfFuel => True

/-- The regime of a run of an accepted program: objects are asked of known classes. -/
def Regime.accepted (h : Hierarchy) (p : Program) : Regime :=
  { Regime.ofInvariant (Machine.Accepted h p) with
    expr := fun e => e.every h.knows = true
    makes := fun name => h.contains name = true
    halt := Halt.IsNotDepth }

theorem Regime.lawful_accepted (ht : h.IsTree) {settings : Settings}
    (hknows : ∀ e ∈ h.expressions, e.every h.knows = true)
    (hlimit : h.userClasses.length ≤ settings.maxConstructionDepth) :
    (Regime.accepted h (.ofHierarchy h settings)).Lawful (.ofHierarchy h settings) :=
  { (Machine.invariant_accepted (p := .ofHierarchy h settings) ht.wellNamed rfl).lawful with
    children := fun he he' => Expr.every_of_mem_children he he'
    holds := fun he => hknows _ he.mem_expressions
    new := fun he hself => Hierarchy.contains_of_knows he hself
    self := fun hm hv => hm.1.contains_className? ht hv
    outOfFuel := trivial
    fault := fun _ hdepth => hdepth
    exceeded := fun hm hname huser hfresh hdepth => by
      have hlt := Machine.Accepted.length_lt hm ht.wellNamed hname huser hfresh
      exact absurd (Nat.le_trans hlimit hdepth) (Nat.not_le.mpr hlt) }

/-- **Constructions nest no deeper than there are classes.** Let validation find nothing wrong with
a program and the type check nothing fatal, and let at least as many constructions be allowed to
nest as the program declares classes. No run of the program, on whatever input and with whatever
limit on calls, stops because constructions were nested too deep. -/
theorem program_never_constructs_too_deep {program : List ClassDecl}
    (hh : Hierarchy.ofProgram program = (h, [])) (hcheck : ∀ d ∈ h.typeCheck, d.isFatal = false)
    {settings : Settings} (hlimit : h.userClasses.length ≤ settings.maxConstructionDepth)
    {input : Input} {fuel : Nat} {d : Diagnostic} {m : Machine}
    (hrun : Eval.program (.ofHierarchy h settings) fuel (.initial h input) = .error (.fault d) m)
    (limit : Nat) : d.cause ≠ .constructionDepthExceeded limit := by
  have ht := Hierarchy.isTree_of_ofProgram hh
  have hknows := ht.wellNamed.knows_of_typeCheck hcheck
  have hlawful := Regime.lawful_accepted ht hknows hlimit
  have hstart : (Machine.initial h input).Accepted h (.ofHierarchy h settings) :=
    ⟨Store.shaped_initial ht input, Machine.guarded_initial _ h input, by
      intro name hname
      cases hname⟩
  obtain ⟨hmain, -⟩ := Hierarchy.exists_main_of_ofProgram hh
  have hobeys : (Eval.program (.ofHierarchy h settings) fuel).Obeys
      (.accepted h (.ofHierarchy h settings)) (.ofSelf .void) (.initial h input) :=
    hlawful.program hmain hstart fuel
  have hdepth : d.cause.isConstructionDepth = false := hobeys.halt hrun
  intro hcause
  rw [hcause] at hdepth
  cases hdepth

/-- Which comes first? A hen starts with an egg and an egg with a hen. -/
def henAndEgg : List ClassDecl :=
  let start (x T : String) : Feature := .attr ⟨x, T, some (.new T .nowhere), .nowhere⟩
  [⟨"Hen", none, [start "egg" "Egg"], .nowhere⟩, ⟨"Egg", none, [start "hen" "Hen"], .nowhere⟩,
    ⟨ClassName.mainClass, none,
      [start "first" "Hen", .method ⟨mainMethod, [], ClassName.int, .int 0 .nowhere, .nowhere⟩],
      .nowhere⟩]

def Hierarchy.henAndEgg : Hierarchy := (ofProgram CoolLang.henAndEgg).1

/-- Three classes are declared. If three constructions may nest then the run stops at a circle, and
if only two may then it stops at the limit. -/
theorem program_never_constructs_too_deep_henAndEgg :
    Hierarchy.ofProgram henAndEgg = (.henAndEgg, []) ∧ Hierarchy.henAndEgg.typeCheck = [] ∧
    Hierarchy.henAndEgg.userClasses.length = 3 ∧
    (∃ d m, Eval.program (.ofHierarchy .henAndEgg { maxConstructionDepth := 3 }) 9
        (.initial .henAndEgg []) = .error (.fault d) m ∧
      d.cause = .circularInitialization "Hen" ∧
      ∀ limit, d.cause ≠ .constructionDepthExceeded limit) ∧
    ∃ m, Eval.program (.ofHierarchy .henAndEgg { maxConstructionDepth := 2 }) 9
      (.initial .henAndEgg []) = .error (.fault ⟨.constructionDepthExceeded 2, .nowhere⟩) m := by
  have hnil : (Hierarchy.ofProgram henAndEgg).2 = [] := by decide +kernel
  have hh : Hierarchy.ofProgram henAndEgg = (.henAndEgg, []) := by
    rw [Hierarchy.henAndEgg, ← hnil]
  have hcheck : Hierarchy.henAndEgg.typeCheck = [] := by decide +kernel
  have hclear : ∀ d ∈ Hierarchy.henAndEgg.typeCheck, d.isFatal = false := by
    rw [hcheck]
    exact fun d hd => absurd hd List.not_mem_nil
  have hlength : Hierarchy.henAndEgg.userClasses.length = 3 := by decide +kernel
  obtain ⟨m, hrun⟩ : ∃ m, Eval.program (.ofHierarchy .henAndEgg { maxConstructionDepth := 3 }) 9
      (.initial .henAndEgg []) = .error (.fault ⟨.circularInitialization "Hen", .nowhere⟩) m :=
    ⟨_, rfl⟩
  refine ⟨hh, hcheck, hlength, ⟨_, m, hrun, rfl, ?_⟩, _, rfl⟩
  exact program_never_constructs_too_deep hh hclear (Nat.le_of_eq hlength) hrun

end CoolLang
