import CoolLang.Proofs.Evaluation.Limit
import CoolLang.Proofs.Typing.Query

/-!
# Variables bound one after the other

A `let` with several variables means the same as nested ones with fewer variables each. The check
keeps the variables of one `let` in one frame of the scope, and evaluation needs fuel for each
`let`; neither the number of frames nor the fuel shows in what comes out.
-/

namespace CoolLang

/-! ## The check -/

theorem checkBindings_append (h : Hierarchy) (bs cs : List Binding) :
    checkBindings h (bs ++ cs) = (do checkBindings h bs; checkBindings h cs) := by
  induction bs with
  | nil =>
      rw [List.nil_append, checkBindings]
      exact (pure_bind _ _).symm
  | cons b bs ih =>
      obtain ⟨x, T, init, span⟩ := b
      rw [List.cons_append, checkBindings, checkBindings, ih]
      simp only [bind_assoc]

/-- A frame right inside another one may be merged with it, since the names declared in either are
forgotten at the same time. -/
theorem Check.Uniform.merge_frames {α : Type} {x : Check α} (hx : Uniform x)
    (hframe : ∀ s : Checker, s.Declares (x s).2) :
    (do
      let a ← (do modifyScope .push; let a ← x; modifyScope .pop; return a)
      modifyScope .pop
      return a) =
    (do
      let a ← x
      modifyScope .pop
      return a) := by
  funext s
  let inner : Checker := { s with scope := s.scope.push }
  have halike : inner.Alike s := ⟨rfl, fun y => Scope.typeOf?_push s.scope y⟩
  obtain ⟨hval, hend, reports, hlog, hlog'⟩ := hx inner s halike
  have hscope : (x inner).2.scope.pop.pop = (x s).2.scope.pop := by
    rw [(hframe inner).outer, (hframe s).outer, Scope.pop_push]
  show ((x inner).1, Checker.mk (x inner).2.currentClass (x inner).2.scope.pop.pop
    (x inner).2.log) = ((x s).1, ⟨(x s).2.currentClass, (x s).2.scope.pop, (x s).2.log⟩)
  rw [hval, hend.currentClass, hscope, hlog, hlog']

theorem checkExpr_letIn_append (h : Hierarchy) (bs cs : List Binding) (body : Expr)
    (span inner outer : Span) :
    checkExpr h (.letIn (bs ++ cs) body span) =
      checkExpr h (.letIn bs (.letIn cs body inner) outer) := by
  have hframe := (binds_checkBindings h cs).bind fun _ => (finds_checkExpr h body).binds
  have huniform := (uniform_checkBindings h cs).bind fun _ => uniform_checkExpr h body
  have hmerge := huniform.merge_frames fun s => (hframe s).1
  simp only [checkExpr, checkBindings_append]
  simp only [bind_assoc] at hmerge ⊢
  rw [← hmerge]

/-! ## Evaluation -/

/-- The evaluation of an expression comes to an end, and this is its ending: some amount of fuel is
enough for it. -/
def Program.Evaluates (p : Program) (e : Expr) (env : Environment) (m : Machine) (r : Ending) :
    Prop :=
  ∃ fuel, eval p fuel e env m = r ∧ r.isUnfinished = false

/-- The variables bound last may be left to an inner `let`, whose body gets the same fuel. -/
theorem eval_letIn_append (p : Program) (fuel : Nat) (bs cs : List Binding) (body : Expr)
    (span inner : Span) (env : Environment) :
    eval p (fuel + 1) (.letIn (bs ++ cs) body span) env = (do
      let env ← Eval.bindings (eval p fuel) env bs
      eval p (fuel + 1) (.letIn cs body inner) env) := by
  have hflat : eval p (fuel + 1) (.letIn (bs ++ cs) body span) env =
      (Eval.bindings (eval p fuel) env (bs ++ cs) >>= eval p fuel body) := rfl
  rw [hflat, Eval.bindings_append, bind_assoc]
  rfl

theorem Program.evaluates_letIn_append (p : Program) (bs cs : List Binding) (body : Expr)
    (span inner outer : Span) (env : Environment) (m : Machine) (r : Ending) :
    p.Evaluates (.letIn (bs ++ cs) body span) env m r ↔
      p.Evaluates (.letIn bs (.letIn cs body inner) outer) env m r := by
  have hmore {fuel more : Nat} (hle : fuel ≤ more) := Eval.Refines.eval p.loosens_self fuel more hle
  constructor
  · rintro ⟨fuel, rfl, hfinished⟩
    cases fuel with
    | zero => cases hfinished
    | succ fuel =>
        -- the inner `let` takes fuel of its own
        refine ⟨fuel + 2, Eval.Refines.eq_of_finished ?_ hfinished, hfinished⟩
        rw [eval_letIn_append p fuel bs cs body span inner env]
        exact .bind (.bindings (hmore (Nat.le_succ fuel)) bs env m) fun env' m' =>
          hmore (Nat.le_refl (fuel + 1)) _ env' m'
  · rintro ⟨fuel, rfl, hfinished⟩
    cases fuel with
    | zero => cases hfinished
    | succ fuel =>
        refine ⟨fuel + 1, Eval.Refines.eq_of_finished ?_ hfinished, hfinished⟩
        rw [eval_letIn_append p fuel bs cs body span inner env]
        exact .bind (.bindings (hmore (Nat.le_refl fuel)) bs env m) fun env' m' =>
          hmore (Nat.le_succ fuel) _ env' m'

/-- **A `let` with several variables means nested ones.** The first variable may be bound by a `let`
of its own around the others. From every state the check finds the same type and reports the same in
the same order; from every machine and environment evaluation comes to an end for the one if and
only if it does for the other, with the same value or fault and with the very same machine. -/
theorem let_means_nested_lets (h : Hierarchy) (p : Program) (b : Binding) (bs : List Binding)
    (body : Expr) (span inner outer : Span) :
    (∀ s : Checker, checkExpr h (.letIn (b :: bs) body span) s =
      checkExpr h (.letIn [b] (.letIn bs body inner) outer) s) ∧
    ∀ (env : Environment) (m : Machine) (r : Ending),
      p.Evaluates (.letIn (b :: bs) body span) env m r ↔
        p.Evaluates (.letIn [b] (.letIn bs body inner) outer) env m r :=
  ⟨congrFun (checkExpr_letIn_append h [b] bs body span inner outer),
    p.evaluates_letIn_append [b] bs body span inner outer⟩

end CoolLang
