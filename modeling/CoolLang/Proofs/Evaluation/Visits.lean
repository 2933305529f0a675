import CoolLang.Proofs.Evaluation.Scoped

/-!
# What a run evaluates

A frame is an expression at a point of a program together with the environment and the machine that
it is evaluated with. A computation that is given an evaluator consults it at a frame if its outcome
depends on what comes of the frame. The frames that a run visits are those that the program consults
its evaluator at, those that the rules for these consult the evaluator of the next level at, and so
on.
-/

namespace CoolLang

structure Frame where
  context : Context
  expr : Expr
  env : Environment
  machine : Machine

/-- What comes of a frame. -/
def Frame.outcome (ev : ScopedEvaluator) (f : Frame) : EStateM.Result Halt Machine Value :=
  ev f.context f.expr f.env f.machine

variable {α : Type} {p : Program}

/-- The computation evaluates the frame on its way: there is an evaluator that differs from the one
it is given at this one frame only, and takes it to another outcome. -/
def Consults (F : ScopedEvaluator → Eval α) (ev : ScopedEvaluator) (m : Machine) (f : Frame) :
    Prop :=
  ∃ ev', (∀ g, g ≠ f → g.outcome ev' = g.outcome ev) ∧ F ev' m ≠ F ev m

/-- The run of a program with some fuel comes to evaluate a frame, with so much fuel left for the
expressions inside. -/
inductive Visits (p : Program) (fuel : Nat) (start : Machine) : Nat → Frame → Prop where
  | run {f : Frame} (hf : Consults (Scoped.program p) (Scoped.eval p fuel) start f) :
      Visits p fuel start fuel f
  | step {left : Nat} {f g : Frame} (hf : Visits p fuel start (left + 1) f)
      (hg : Consults (fun ev => Scoped.step p ev left f.context f.expr f.env)
        (Scoped.eval p left) f.machine g) :
      Visits p fuel start left g

/-! ## Consulted frames -/

namespace Consults

variable {F : ScopedEvaluator → Eval α} {ev : ScopedEvaluator} {m : Machine} {f : Frame}

/-- A computation that halts whenever the evaluation of the frame does consults it. -/
theorem of_halts
    (hF : ∀ ev' halt, f.outcome ev' = .error halt f.machine → ∃ m', F ev' m = .error halt m') :
    Consults F ev m f := by
  classical
  let halting (halt : Halt) : ScopedEvaluator := fun c e env m =>
    if (⟨c, e, env, m⟩ : Frame) = f then .error halt m else ev c e env m
  have hothers : ∀ halt g, g ≠ f → g.outcome (halting halt) = g.outcome ev :=
    fun _ _ hg => if_neg hg
  obtain ⟨m₁, h₁⟩ := hF (halting .outOfFuel) .outOfFuel (if_pos rfl)
  obtain ⟨m₂, h₂⟩ := hF (halting (.fault ⟨.caseOnVoid, .nowhere⟩)) _ (if_pos rfl)
  -- of two reasons to halt, one is not the outcome as it is
  by_cases heq : F ev m = .error .outOfFuel m₁
  · refine ⟨_, hothers (.fault ⟨.caseOnVoid, .nowhere⟩), ?_⟩
    rw [h₂, heq]
    nofun
  · refine ⟨_, hothers .outOfFuel, ?_⟩
    rw [h₁]
    exact fun h => heq h.symm

/-- A computation consults only frames of a kind that settles its outcome. -/
theorem of_depends {P : Frame → Prop}
    (hF : ∀ ev', (∀ g, P g → g.outcome ev' = g.outcome ev) → F ev' m = F ev m)
    (hf : Consults F ev m f) : P f := by
  by_contra hP
  obtain ⟨ev', hothers, hne⟩ := hf
  refine hne (hF ev' fun g hg => hothers g ?_)
  rintro rfl
  exact hP hg

end Consults

/-- **Invariants of runs.** A property of frames holds of all that a run visits, if the outcome of
the program depends on such frames only, and that of a rule for one of them too. -/
theorem Visits.invariant {fuel : Nat} {start : Machine} {P : Frame → Prop}
    (hrun : ∀ ev', (∀ f, P f → f.outcome ev' = f.outcome (Scoped.eval p fuel)) →
      Scoped.program p ev' start = Scoped.program p (Scoped.eval p fuel) start)
    (hstep : ∀ left f, P f →
      ∀ ev', (∀ g, P g → g.outcome ev' = g.outcome (Scoped.eval p left)) →
        f.outcome (Scoped.step p ev' left) =
          f.outcome (Scoped.step p (Scoped.eval p left) left))
    {left : Nat} {f : Frame} (hf : Visits p fuel start left f) : P f := by
  induction hf with
  | run hf => exact hf.of_depends hrun
  | step _ hg ih => exact hg.of_depends (hstep _ _ ih)

end CoolLang
