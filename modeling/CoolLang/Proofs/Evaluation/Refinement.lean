import CoolLang.Proofs.Evaluation.Conservation

/-!
# Refinement of computations

Two evaluations of one program that differ only in fuel and in the limits on recursion go through
the same machines until the poorer one is stopped. One induction over the rules covers both: more
fuel, and wider limits.
-/

namespace CoolLang

namespace Eval

variable {α β : Type}

/-- `y` does what `x` does, and goes on where `x` is stopped for a reason in `Stop`. -/
structure Refines (Stop : Halt → Prop) (x y : Eval α) (m : Machine) : Prop where
  writesOn : m.WritesOn (y.final m)
  agrees : x m = y m ∨
    ∃ halt m', x m = .error halt m' ∧ Stop halt ∧ m'.WritesOn (y.final m)

namespace Refines

variable {Stop : Halt → Prop}

theorem refl {x : Eval α} {m : Machine} (h : m.WritesOn (x.final m)) : Refines Stop x x m :=
  ⟨h, Or.inl rfl⟩

/-- Two stopped computations, or one that is stopped at once. -/
theorem of_stop {x y : Eval α} {m : Machine} {halt : Halt} (hx : x m = .error halt m)
    (hstop : Stop halt) (h : m.WritesOn (y.final m)) : Refines Stop x y m :=
  ⟨h, Or.inr ⟨halt, m, hx, hstop, h⟩⟩

theorem bind {x y : Eval α} {f g : α → Eval β} {m : Machine} (hxy : Refines Stop x y m)
    (hfg : ∀ a m₁, Refines Stop (f a) (g a) m₁) :
    Refines Stop (x >>= f) (y >>= g) m := by
  -- what `y >>= g` writes extends what `y` alone writes
  have hmore : (y.final m).WritesOn ((y >>= g).final m) := by
    cases hy : y m with
    | ok a m₁ =>
        rw [final_ok hy, final_bind_ok hy]
        exact (hfg a m₁).writesOn
    | error halt m₁ =>
        rw [final_error hy, final_error (bind_error hy)]
        exact Machine.writesOn_of_output_eq rfl
  refine ⟨hxy.writesOn.trans hmore, ?_⟩
  rcases hxy.agrees with heq | ⟨halt, m', hx, hstop, hpre⟩
  · cases hy : y m with
    | ok a m₁ =>
        rw [bind_ok (heq.trans hy), bind_ok hy, final_bind_ok hy]
        exact (hfg a m₁).agrees
    | error halt m₁ =>
        rw [bind_error (heq.trans hy), bind_error hy]
        exact Or.inl rfl
  · exact Or.inr ⟨halt, m', bind_error hx, hstop, hpre.trans hmore⟩

theorem withinCall {x y : Eval α} {m : Machine}
    (h : Refines Stop x y { m with callDepth := m.callDepth + 1 }) :
    Refines Stop x.withinCall y.withinCall m := by
  refine ⟨?_, ?_⟩
  · rw [final_withinCall]
    exact h.writesOn
  · rcases h.agrees with heq | ⟨halt, m', hx, hstop, hpre⟩
    · exact Or.inl (withinCall_eq heq)
    · refine Or.inr ⟨halt, _, withinCall_error hx, hstop, ?_⟩
      rw [final_withinCall]
      exact hpre

theorem withinConstruction (name : String) {x y : Eval α} {m : Machine}
    (h : Refines Stop x y { m with constructing := name :: m.constructing }) :
    Refines Stop (x.withinConstruction name) (y.withinConstruction name) m := by
  refine ⟨?_, ?_⟩
  · rw [final_withinConstruction]
    exact h.writesOn
  · rcases h.agrees with heq | ⟨halt, m', hx, hstop, hpre⟩
    · exact Or.inl (withinConstruction_eq heq)
    · refine Or.inr ⟨halt, _, withinConstruction_error hx, hstop, ?_⟩
      rw [final_withinConstruction]
      exact hpre

end Refines

end Eval

/-- `q` is `p` with limits that are no smaller. Where a limit differs, hitting it is a reason to be
stopped, as is running out of fuel. -/
structure Program.Loosens (Stop : Halt → Prop) (p q : Program) : Prop where
  classes : q.classes = p.classes
  fuel : Stop .outOfFuel
  calls : q.maxCallDepth = p.maxCallDepth ∨ (p.maxCallDepth ≤ q.maxCallDepth ∧
    ∀ position, Stop (.fault ⟨.callDepthExceeded p.maxCallDepth, position⟩))
  constructions : q.maxConstructionDepth = p.maxConstructionDepth ∨
    (p.maxConstructionDepth ≤ q.maxConstructionDepth ∧
      ∀ position, Stop (.fault ⟨.constructionDepthExceeded p.maxConstructionDepth, position⟩))

def Evaluator.Refines (Stop : Halt → Prop) (poor rich : Evaluator) : Prop :=
  ∀ e env m, Eval.Refines Stop (poor e env) (rich e env) m

namespace Eval.Refines

/-! ## Rules -/

variable {Stop : Halt → Prop} {p q : Program} {poor rich : Evaluator}

theorem still {α : Type} {x : Eval α} {m : Machine} (h : x.final m = m) :
    Refines Stop x x m :=
  refl (by rw [h]; exact Machine.writesOn_of_output_eq rfl)

theorem bool (hev : Evaluator.Refines Stop poor rich) (e : Expr) (env : Environment)
    (m : Machine) : Refines Stop (Eval.bool poor e env) (Eval.bool rich e env) m := by
  refine bind (hev e env m) fun v m₁ => ?_
  cases v <;> exact still rfl

theorem int (hev : Evaluator.Refines Stop poor rich) (e : Expr) (env : Environment)
    (m : Machine) : Refines Stop (Eval.int poor e env) (Eval.int rich e env) m := by
  refine bind (hev e env m) fun v m₁ => ?_
  cases v <;> exact still rfl

theorem receiver (hev : Evaluator.Refines Stop poor rich) (r : Option Expr)
    (env : Environment) (m : Machine) :
    Refines Stop (Eval.receiver poor env r) (Eval.receiver rich env r) m := by
  cases r with
  | none => exact still rfl
  | some e => exact hev e env m

theorem arguments (hev : Evaluator.Refines Stop poor rich) (env : Environment)
    (args : List Expr) :
    ∀ m, Refines Stop (Eval.arguments poor env args) (Eval.arguments rich env args) m := by
  induction args with
  | nil => intro m; exact still rfl
  | cons e args ih =>
      intro m
      exact bind (hev e env m) fun v m₁ => bind (ih m₁) fun vs m₂ => still rfl

theorem sequence (hev : Evaluator.Refines Stop poor rich) (env : Environment)
    (body : List Expr) : ∀ last m,
      Refines Stop (Eval.sequence poor env last body) (Eval.sequence rich env last body) m := by
  induction body with
  | nil => intro last m; exact still rfl
  | cons e body ih =>
      intro last m
      exact bind (hev e env m) fun v m₁ => ih v m₁

theorem define (env : Environment) (name : String) (v : Value) (m : Machine) :
    Refines Stop (Eval.define env name v) (Eval.define env name v) m :=
  refl (Machine.writesOn_of_output_eq rfl)

theorem bindings (hev : Evaluator.Refines Stop poor rich) (bs : List Binding) :
    ∀ env m, Refines Stop (Eval.bindings poor env bs) (Eval.bindings rich env bs) m := by
  induction bs with
  | nil => intro env m; exact still rfl
  | cons b bs ih =>
      intro env m
      rw [bindings_cons, bindings_cons]
      refine bind ?_ fun v m₁ => bind (define env b.name v m₁) fun env' m₂ => ih env' m₂
      unfold initialValue
      split
      · exact hev _ env m
      · exact still rfl

/-- The richer run may go round more often. -/
theorem repeatWhile (p : Program) {c₁ c₂ : Eval Bool} {b₁ b₂ : Eval Value}
    (hfuel : Stop .outOfFuel)
    (hc : ∀ m, Refines Stop c₁ c₂ m) (hb : ∀ m, Refines Stop b₁ b₂ m) (rounds : Nat) :
    ∀ more, rounds ≤ more → ∀ m,
      Refines Stop (Eval.repeatWhile c₁ b₁ rounds) (Eval.repeatWhile c₂ b₂ more) m := by
  induction rounds with
  | zero =>
      intro more _ m
      refine of_stop rfl hfuel ?_
      exact (Machine.conserved_writesOn p).repeatWhile (fun m => (hc m).writesOn)
        (fun m => (hb m).writesOn) more m
  | succ rounds ih =>
      intro more hle m
      obtain ⟨more, rfl⟩ := Nat.exists_eq_add_of_le' (Nat.lt_of_lt_of_le (Nat.succ_pos _) hle)
      refine bind (hc m) fun again m₁ => ?_
      cases again with
      | true => exact bind (hb m₁) fun _ m₂ => ih more (Nat.le_of_succ_le_succ hle) m₂
      | false => exact still rfl

theorem runInitializers (hev : Evaluator.Refines Stop poor rich) (place : Nat)
    (slots : List Attribute) : ∀ m,
      Refines Stop (Eval.runInitializers poor place slots)
        (Eval.runInitializers rich place slots) m := by
  induction slots with
  | nil => intro m; exact still rfl
  | cons slot slots ih =>
      intro m
      rw [runInitializers_cons, runInitializers_cons]
      refine bind ?_ fun _ m₁ => ih m₁
      unfold fillSlot
      split
      · exact still rfl
      · refine bind (hev _ _ m) fun v m₁ => refl ?_
        exact Machine.writesOn_of_output_eq rfl

theorem blueprint (hpq : p.Loosens Stop q) (name : String) (position : Position)
    (m : Machine) : Refines Stop (Eval.blueprint p name position)
      (Eval.blueprint q name position) m := by
  have heq : Eval.blueprint q name position = Eval.blueprint p name position := by
    unfold Eval.blueprint
    rw [hpq.classes]
  rw [heq]
  exact still (final_blueprint p name position m)

theorem guardCall (hpq : p.Loosens Stop q) (position : Position) (m : Machine) :
    Refines Stop (Eval.guardCall p position) (Eval.guardCall q position) m := by
  have hstill : m.WritesOn ((Eval.guardCall q position).final m) := by
    rw [final_guardCall]
    exact Machine.writesOn_of_output_eq rfl
  rcases hpq.calls with heq | ⟨hle, hstop⟩
  · refine ⟨hstill, Or.inl ?_⟩
    unfold Eval.guardCall
    rw [heq]
  · by_cases hp : p.maxCallDepth ≤ m.callDepth
    · refine of_stop ?_ (hstop position) hstill
      unfold Eval.guardCall
      rw [if_pos hp]
      rfl
    · have hq : ¬ q.maxCallDepth ≤ m.callDepth := fun h => hp (Nat.le_trans hle h)
      refine ⟨hstill, Or.inl ?_⟩
      unfold Eval.guardCall
      rw [if_neg hp, if_neg hq]

theorem guardConstruction (hpq : p.Loosens Stop q) (className : String)
    (position : Position) (m : Machine) :
    Refines Stop (Eval.guardConstruction p className position)
      (Eval.guardConstruction q className position) m := by
  have hstill : m.WritesOn ((Eval.guardConstruction q className position).final m) := by
    rw [final_guardConstruction]
    exact Machine.writesOn_of_output_eq rfl
  rcases hpq.constructions with heq | ⟨hle, hstop⟩
  · refine ⟨hstill, Or.inl ?_⟩
    unfold Eval.guardConstruction
    rw [heq]
  · -- a class under construction is refused in both runs, before the depth is looked at
    by_cases hc : m.constructing.contains className = true
    · refine ⟨hstill, Or.inl ?_⟩
      unfold Eval.guardConstruction
      rw [if_pos hc, if_pos hc]
    · by_cases hp : p.maxConstructionDepth ≤ m.constructing.length
      · refine of_stop ?_ (hstop position) hstill
        unfold Eval.guardConstruction
        rw [if_neg hc, if_pos hp]
        rfl
      · have hq : ¬ q.maxConstructionDepth ≤ m.constructing.length :=
          fun h => hp (Nat.le_trans hle h)
        refine ⟨hstill, Or.inl ?_⟩
        unfold Eval.guardConstruction
        rw [if_neg hc, if_neg hc, if_neg hp, if_neg hq]

theorem construct (hpq : p.Loosens Stop q) (hev : Evaluator.Refines Stop poor rich)
    (className : String) (position : Position) (m : Machine) :
    Refines Stop (Eval.construct p poor className position)
      (Eval.construct q rich className position) m := by
  refine bind (guardConstruction hpq className position m) fun _ m₁ =>
    bind (blueprint hpq className position m₁) fun b m₂ =>
      bind (refl (Machine.writesOn_of_output_eq rfl)) fun place m₃ => ?_
  exact bind (withinConstruction className (runInitializers hev place b.layout _))
    fun _ m₄ => still rfl

theorem instantiate (hpq : p.Loosens Stop q) (hev : Evaluator.Refines Stop poor rich)
    (className : String) (position : Position) (m : Machine) :
    Refines Stop (Eval.instantiate p poor className position)
      (Eval.instantiate q rich className position) m := by
  unfold Eval.instantiate
  split
  · exact still rfl
  · split
    · exact still rfl
    · split
      · exact still rfl
      · exact construct hpq hev className position m

theorem dispatch (hpq : p.Loosens Stop q) (hev : Evaluator.Refines Stop poor rich)
    (self : Value) (qualifier : Option String) (method : String) (values : List Value)
    (position : Position) (m : Machine) :
    Refines Stop (Eval.dispatch p poor self qualifier method values position)
      (Eval.dispatch q rich self qualifier method values position) m := by
  refine bind (still rfl) fun name m₁ => ?_
  cases name with
  | none => exact still rfl
  | some className =>
      refine bind (blueprint hpq _ position m₁) fun b m₂ => ?_
      cases b.findMethod? method values.length with
      | none => exact still rfl
      | some found =>
          dsimp only
          cases found.primitive? with
          | some operation =>
              exact refl ((Machine.conserved_writesOn p).perform operation self values
                position m₂)
          | none =>
              refine bind (guardCall hpq position m₂) fun _ m₃ => withinCall ?_
              refine bind (refl ?_) fun env m₄ => hev found.body env m₄
              exact (Machine.conserved_writesOn p).bindFormals found.formals _ values _

theorem name (hpq : p.Loosens Stop q) (hev : Evaluator.Refines Stop poor rich)
    (n : String) (env : Environment) (position : Position) (m : Machine) :
    Refines Stop (Eval.name p poor n env position) (Eval.name q rich n env position) m := by
  refine bind (still rfl) fun v? m₁ => ?_
  cases v? with
  | some v => exact still rfl
  | none =>
      refine bind (still rfl) fun w? m₂ => ?_
      cases w? with
      | some w => exact still rfl
      | none => exact dispatch hpq hev env.self none n [] position m₂

theorem branch (hpq : p.Loosens Stop q) (hev : Evaluator.Refines Stop poor rich)
    (v : Value) (branches : List Branch) (env : Environment) (position : Position)
    (m : Machine) :
    Refines Stop (Eval.branch p poor v branches env position)
      (Eval.branch q rich v branches env position) m := by
  refine bind (still rfl) fun name m₁ => ?_
  cases name with
  | none => exact still rfl
  | some className =>
      refine bind (blueprint hpq className position m₁) fun b m₂ => ?_
      cases closestBranch? b branches with
      | none => exact still rfl
      | some found =>
          exact bind (define env found.2.name v m₂) fun env' m₃ =>
            hev found.2.body env' m₃

theorem binary (hev : Evaluator.Refines Stop poor rich) (op : BinaryOp) (left right : Expr)
    (env : Environment) (position : Position) (m : Machine) :
    Refines Stop (Eval.binary poor op left right env position)
      (Eval.binary rich op left right env position) m := by
  unfold Eval.binary
  split
  · exact bind (hev left env m) fun a m₁ =>
      bind (hev right env m₁) fun b m₂ => still rfl
  · refine bind (int hev left env m) fun a m₁ =>
      bind (int hev right env m₁) fun b m₂ => ?_
    unfold arithmetic
    cases op with
    | divide => dsimp only; split <;> exact still rfl
    | _ => exact still rfl

/-! ## Evaluation -/

theorem step (hpq : p.Loosens Stop q) (hev : Evaluator.Refines Stop poor rich)
    {rounds more : Nat} (hle : rounds ≤ more) :
    Evaluator.Refines Stop (Eval.step p poor rounds) (Eval.step q rich more) := by
  intro e env m
  cases e with
  | int | str | bool | self => exact still rfl
  | name n span => exact name hpq hev n env span.start m
  | assign n value span =>
      refine bind (hev value env m) fun v m₁ => bind (refl ?_) fun _ m₂ => still rfl
      exact (Machine.conserved_writesOn p).assign env n v span.start m₁
  | dispatch r qualifier method args span =>
      rw [step_dispatch, step_dispatch]
      exact bind (receiver hev r env m) fun self m₁ =>
        bind (arguments hev env args m₁) fun values m₂ =>
          dispatch hpq hev self qualifier method values span.start m₂
  | new typeName span =>
      refine bind (refl ?_) fun className m₁ =>
        instantiate hpq hev className span.start m₁
      exact (Machine.conserved_writesOn p).newClass typeName env span.start m
  | cond c t f span =>
      refine bind (bool hev c env m) fun b m₁ => ?_
      cases b with
      | true => exact hev t env m₁
      | false => exact hev f env m₁
  | loop c body span =>
      exact repeatWhile p hpq.fuel (bool hev c env) (hev body env) rounds more hle m
  | block body span => exact sequence hev env body .void m
  | letIn bs body span =>
      exact bind (bindings hev bs env m) fun env' m₁ => hev body env' m₁
  | caseOf scrutinee branches span =>
      exact bind (hev scrutinee env m) fun v m₁ =>
        branch hpq hev v branches env span.start m₁
  | isVoid operand span => exact bind (hev operand env m) fun v m₁ => still rfl
  | unary op operand span =>
      cases op with
      | negate => exact bind (int hev operand env m) fun n m₁ => still rfl
      | not => exact bind (bool hev operand env m) fun b m₁ => still rfl
  | binary op left right span => exact binary hev op left right env span.start m
  | primitive operation span => exact still rfl

/-- More fuel and wider limits refine evaluation. -/
theorem eval (hpq : p.Loosens Stop q) (fuel : Nat) :
    ∀ more, fuel ≤ more →
      Evaluator.Refines Stop (CoolLang.eval p fuel) (CoolLang.eval q more) := by
  induction fuel with
  | zero =>
      intro more _ e env m
      exact of_stop rfl hpq.fuel ((Machine.conserved_writesOn q).eval more e env m)
  | succ fuel ih =>
      intro more hle
      obtain ⟨more, rfl⟩ := Nat.exists_eq_add_of_le' (Nat.lt_of_lt_of_le (Nat.succ_pos _) hle)
      have hle' := Nat.le_of_succ_le_succ hle
      exact step hpq (ih more hle') hle'

theorem program (hpq : p.Loosens Stop q) {fuel more : Nat} (hle : fuel ≤ more)
    (m : Machine) : Refines Stop (Eval.program p fuel) (Eval.program q more) m := by
  have hev := eval hpq fuel more hle
  exact bind (instantiate hpq hev _ _ m) fun object m₁ =>
    dispatch hpq hev object none mainMethod [] .nowhere m₁

end Eval.Refines

theorem Program.loosens_self (p : Program) : p.Loosens (· = .outOfFuel) p :=
  ⟨rfl, rfl, Or.inl rfl, Or.inl rfl⟩

/-- **Fuel is enough or not.** Fuel beyond what an evaluation needs does not change its outcome. -/
theorem eval_of_le (p : Program) {fuel more : Nat} (hle : fuel ≤ more) {e : Expr}
    {env : Environment} {m : Machine} (h : ∀ m', eval p fuel e env m ≠ .error .outOfFuel m') :
    eval p more e env m = eval p fuel e env m := by
  rcases (Eval.Refines.eval p.loosens_self fuel more hle e env m).agrees with
    heq | ⟨halt, m', hp, rfl, _⟩
  · exact heq.symm
  · exact absurd hp (h m')

end CoolLang
