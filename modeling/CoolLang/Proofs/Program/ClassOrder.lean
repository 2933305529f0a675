import CoolLang.Program.Run
import CoolLang.Proofs.Hierarchy.Order
import CoolLang.Proofs.Object.Blueprint
import CoolLang.Proofs.Typing.Outline
import CoolLang.Proofs.Typing.Reports

/-!
# The order of classes does not matter

The classes of a program may stand in any order. What is wrong with them is found in another order
then, and a run does the same.
-/

namespace CoolLang

/-! ## Runs look classes up by name -/

/-- The two programs have the same limits and find the same classes by name. -/
structure Program.Agree (p q : Program) : Prop where
  find? : ∀ name, p.classes.find? name = q.classes.find? name
  maxCallDepth : p.maxCallDepth = q.maxCallDepth
  maxConstructionDepth : p.maxConstructionDepth = q.maxConstructionDepth

namespace Program.Agree

variable {p q : Program}

theorem blueprint (hpq : p.Agree q) : Eval.blueprint p = Eval.blueprint q := by
  funext name position
  rw [Eval.blueprint, Eval.blueprint, hpq.find?]

theorem guardCall (hpq : p.Agree q) : Eval.guardCall p = Eval.guardCall q := by
  unfold Eval.guardCall
  rw [hpq.maxCallDepth]

theorem guardConstruction (hpq : p.Agree q) :
    Eval.guardConstruction p = Eval.guardConstruction q := by
  unfold Eval.guardConstruction
  rw [hpq.maxConstructionDepth]

theorem instantiate (hpq : p.Agree q) (ev : Evaluator) :
    Eval.instantiate p ev = Eval.instantiate q ev := by
  funext className position
  rw [Eval.instantiate, Eval.instantiate, Eval.construct, Eval.construct, hpq.guardConstruction,
    hpq.blueprint]

theorem dispatch (hpq : p.Agree q) (ev : Evaluator) :
    Eval.dispatch p ev = Eval.dispatch q ev := by
  funext receiver qualifier method arguments position
  unfold Eval.dispatch
  rw [hpq.blueprint, hpq.guardCall]

theorem name (hpq : p.Agree q) (ev : Evaluator) : Eval.name p ev = Eval.name q ev := by
  funext x env position
  unfold Eval.name
  rw [hpq.dispatch]

theorem branch (hpq : p.Agree q) (ev : Evaluator) : Eval.branch p ev = Eval.branch q ev := by
  funext v branches env position
  unfold Eval.branch
  rw [hpq.blueprint]

theorem step (hpq : p.Agree q) (ev : Evaluator) (rounds : Nat) :
    Eval.step p ev rounds = Eval.step q ev rounds := by
  funext e env
  unfold Eval.step
  rw [hpq.name, hpq.dispatch, hpq.instantiate, hpq.branch]

theorem eval (hpq : p.Agree q) (fuel : Nat) : CoolLang.eval p fuel = CoolLang.eval q fuel := by
  induction fuel with
  | zero => rfl
  | succ fuel ih => rw [CoolLang.eval, CoolLang.eval, ih, hpq.step]

theorem program (hpq : p.Agree q) (fuel : Nat) : Eval.program p fuel = Eval.program q fuel := by
  rw [Eval.program, Eval.program, hpq.eval, hpq.instantiate, hpq.dispatch]

end Program.Agree

namespace Hierarchy.Agree

variable {h h' : Hierarchy}

theorem ofClass (hh : h.Agree h') : Blueprint.ofClass h = Blueprint.ofClass h' := by
  funext name
  rw [Blueprint.ofClass, Blueprint.ofClass, hh.ancestors]

theorem ofHierarchy (hh : h.Agree h') (settings : Settings) :
    (Program.ofHierarchy h settings).Agree (.ofHierarchy h' settings) := by
  refine ⟨fun name => ?_, rfl, rfl⟩
  show (ClassTable.ofHierarchy h).find? name = (ClassTable.ofHierarchy h').find? name
  rw [ClassTable.find?_ofHierarchy, ClassTable.find?_ofHierarchy, hh.sameOutline.contains,
    hh.ofClass]

theorem initial (hh : h.Agree h') (input : Input) :
    Machine.initial h input = Machine.initial h' input := by
  rw [Machine.initial, Machine.initial, hh.ofClass]

theorem reports (hh : h.Agree h') : h.reports = h'.reports := by
  funext c
  rw [Hierarchy.reports, Hierarchy.reports, hh.sameOutline.checkClass]

end Hierarchy.Agree

open Hierarchy

/-- **The order of classes does not matter.** Where no two classes of a program share a name, its
classes may be written in any order: the same is wrong with the hierarchy and with the types, told
in another order, and every run takes the same course to the same end. -/
theorem order_irrelevant {program program' : List ClassDecl} (hperm : program.Perm program')
    (hnames : (program.map (·.name)).Nodup) :
    (ofProgram program).2.Perm (ofProgram program').2 ∧
    (ofProgram program).1.typeCheck.Perm (ofProgram program').1.typeCheck ∧
    ∀ settings input fuel,
      Eval.program (.ofHierarchy (ofProgram program).1 settings) fuel
          (.initial (ofProgram program).1 input) =
        Eval.program (.ofHierarchy (ofProgram program').1 settings) fuel
          (.initial (ofProgram program').1 input) := by
  have hclasses := perm_classes_ofProgram hperm hnames
  have hagree := agree_of_perm (wellNamed_ofProgram program) hclasses
  refine ⟨perm_diagnostics_ofProgram hperm hnames, ?_, fun settings input fuel => ?_⟩
  · rw [typeCheck_eq, typeCheck_eq, hagree.reports]
    exact (hclasses.filter _).flatMap_right _
  · rw [(hagree.ofHierarchy settings).program fuel, hagree.initial]

/-- A class that starts the run, one it makes an object of, and the parent of that one, which
comes last. -/
def choir : List ClassDecl :=
  let song (text : String) : Feature :=
    .method ⟨"sing", [], ClassName.string, .str text .nowhere, .nowhere⟩
  let singing : Expr :=
    .dispatch (some (.new "Echo" .nowhere)) none "sing" [] .nowhere
  [⟨ClassName.mainClass, some ClassName.io,
      [.method ⟨mainMethod, [], ClassName.object,
        .dispatch none none "out_string" [singing] .nowhere, .nowhere⟩], .nowhere⟩,
    ⟨"Echo", some "Voice", [song "la la"], .nowhere⟩, ⟨"Voice", none, [song "la"], .nowhere⟩]

/-- Turned round, the choir is accepted as before and sings the same. -/
theorem order_irrelevant_choir :
    (ofProgram choir.reverse).2 = [] ∧ (ofProgram choir.reverse).1.typeCheck = [] ∧
    (evaluate 9 (ofProgram choir.reverse).1 [] {} []).map (fun r => (r.output, r.value?)) =
      some ("la la", some (.object ClassName.mainClass)) := by
  obtain ⟨hfirst, hcheck, hrun⟩ := order_irrelevant (List.reverse_perm choir).symm
    (by decide +kernel)
  have hviolations : (ofProgram choir).2 = [] := by decide +kernel
  have htypes : (ofProgram choir).1.typeCheck = [] := by decide +kernel
  rw [hviolations, List.nil_perm] at hfirst
  rw [htypes, List.nil_perm] at hcheck
  refine ⟨hfirst, hcheck, ?_⟩
  rw [evaluate, ← hrun]
  decide +kernel

end CoolLang
