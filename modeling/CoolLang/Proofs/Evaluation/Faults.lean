import CoolLang.Proofs.Evaluation.Regime

/-!
# Why evaluation stops

Evaluation reports what goes wrong at run time and nothing else: no complaint about the text, the
classes or the types of a program, and no warning, is ever a reason for it to stop.
-/

namespace CoolLang

theorem Cause.isFatal_of_isRuntime {c : Cause} (hc : c.isRuntime = true) : c.isFatal = true := by
  cases c <;> simp_all [isRuntime, isFatal, severity]

namespace Eval

variable {α : Type}

/-- Every fault of the computation has a cause of evaluation's own. -/
def StopsAtRuntime (x : Eval α) : Prop :=
  ∀ m d m', x m = .error (.fault d) m' → d.cause.isRuntime = true

end Eval

/-- Nothing is asked of the machine, so evaluation is only held to its reasons to stop. -/
theorem Invariant.trivial (p : Program) : Invariant p fun _ => True where
  write _ _ := .intro
  read _ := .intro
  create _ _ := .intro
  copy _ _ := .intro
  addCell _ _ := .intro
  setCell _ _ _ := .intro
  setField _ _ _ _ := .intro
  call _ _ := .intro
  callEnd _ := .intro
  construction _ _ _ _ _ := .intro
  constructionEnd _ := .intro

theorem Eval.stopsAtRuntime_program (p : Program) (fuel : Nat) :
    (Eval.program p fuel).StopsAtRuntime := by
  intro m d m' hd
  have hobeys : (Eval.program p fuel).Obeys (.ofInvariant fun _ => True) (.ofSelf .void) m :=
    (Invariant.trivial p).lawful.program .intro .intro fuel
  exact hobeys.halt hd

end CoolLang
