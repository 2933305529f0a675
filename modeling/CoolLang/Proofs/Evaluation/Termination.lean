import CoolLang.Program.Run
import CoolLang.Proofs.Evaluation.Refinement
import CoolLang.Proofs.Expr.Traversal
import CoolLang.Proofs.Object.Blueprint

/-!
# Termination without loops

Evaluation re-enters an expression of the program only through a guard: the one on calls or the one
on constructions. Each guard that lets evaluation pass uses up one of the nestings that are left,
and between two guards evaluation only goes down a syntax tree. So a program without loops needs no
more fuel than the nodes that can lie below each other: those of the expression, and for every
nesting that the limits allow those of the highest expression of the program.
-/

namespace CoolLang

def Expr.isLoop : Expr → Bool
  | .loop _ _ _ => true
  | _ => false

/-- No loop stands anywhere in the expression. -/
def Expr.LoopFree (e : Expr) : Prop :=
  e.every (!·.isLoop) = true

instance (e : Expr) : Decidable e.LoopFree :=
  inferInstanceAs (Decidable (_ = true))

namespace Program

/-- How many more calls and constructions may be nested. -/
def slack (p : Program) (m : Machine) : Nat :=
  (p.maxCallDepth - m.callDepth) + (p.maxConstructionDepth - m.constructing.length)

theorem slack_eq_of_balanced (p : Program) {m m' : Machine} (h : m.Balanced m') :
    p.slack m' = p.slack m := by
  rw [slack, slack, h.callDepth, h.constructing]

theorem slack_le (p : Program) (m : Machine) :
    p.slack m ≤ p.maxCallDepth + p.maxConstructionDepth := by
  unfold slack
  omega

end Program

namespace Eval

variable {α β : Type}

/-- The fuel suffices: the computation yields a value or halts for a reason of its own. -/
def Finishes (x : Eval α) (m : Machine) : Prop :=
  ∀ m', x m ≠ .error .outOfFuel m'

namespace Finishes

theorem bind {x : Eval α} {f : α → Eval β} {m : Machine} (hx : x.Finishes m)
    (hm : m.Balanced (x.final m)) (hf : ∀ a m₁, m.Balanced m₁ → (f a).Finishes m₁) :
    (x >>= f).Finishes m := by
  intro m' h
  rcases bind_eq_error h with h | ⟨a, m₁, ha, h⟩
  · exact hx m' h
  · rw [final_ok ha] at hm
    exact hf a m₁ hm m' h

/-- The same where the rest finishes whatever the first part leaves. -/
theorem andThen {x : Eval α} {f : α → Eval β} {m : Machine} (hx : x.Finishes m)
    (hf : ∀ a m₁, (f a).Finishes m₁) : (x >>= f).Finishes m := by
  intro m' h
  rcases bind_eq_error h with h | ⟨a, m₁, _, h⟩
  · exact hx m' h
  · exact hf a m₁ m' h

theorem of_ok {x : Eval α} {m m' : Machine} {a : α} (h : x m = .ok a m') : x.Finishes m := by
  intro m₁ h₁
  rw [h] at h₁
  cases h₁

theorem of_fault {x : Eval α} {m m' : Machine} {d : Diagnostic}
    (h : x m = .error (.fault d) m') : x.Finishes m := by
  intro m₁ h₁
  rw [h] at h₁
  cases h₁

theorem of_eq {x y : Eval α} {m m' : Machine} (h : x m = y m') (hy : y.Finishes m') :
    x.Finishes m := by
  intro m₁ h₁
  exact hy m₁ (h ▸ h₁)

/-! ## Operations -/

theorem assign (env : Environment) (name : String) (v : Value) (position : Position)
    (m : Machine) : (Eval.assign env name v position).Finishes m := by
  rcases assign_cases env name v position m with
    ⟨_, _, hrun⟩ | ⟨_, _, _, _, hrun⟩ | hrun
  · exact of_ok hrun
  · exact of_ok hrun
  · exact of_fault hrun

theorem guardConstruction (p : Program) (className : String) (position : Position)
    (m : Machine) : (Eval.guardConstruction p className position).Finishes m := by
  intro m'
  unfold Eval.guardConstruction
  split
  · exact nofun
  · split <;> exact nofun

theorem bindFormals (formals : List Parameter) :
    ∀ (env : Environment) (values : List Value) (m : Machine),
      (Eval.bindFormals env formals values).Finishes m := by
  induction formals with
  | nil => intro env values m; exact of_ok rfl
  | cons formal formals ih =>
      intro env values m
      cases values with
      | nil => exact of_ok rfl
      | cons v values =>
          exact andThen (of_ok rfl) fun env' m₁ => ih env' values m₁

theorem nextLine (position : Position) (m : Machine) :
    (Primitive.nextLine? position).Finishes m := by
  refine andThen (of_ok rfl) fun line m₁ => ?_
  cases line <;> exact nofun

theorem perform (operation : Primitive) (receiver : Value) (values : List Value)
    (position : Position) (m : Machine) :
    (operation.perform receiver values position).Finishes m := by
  have heffect := operation.perform_effect receiver values position m
  unfold Finishes
  generalize operation.perform receiver values position m = r at heffect ⊢
  cases heffect with
  | value v => exact nofun
  | fault d => exact nofun
  | copy => exact of_ok rfl
  | write text => exact of_ok rfl
  | read value => exact andThen (nextLine position m) fun _ _ => of_ok rfl

theorem withinCall {x : Eval α} {m : Machine}
    (hx : x.Finishes { m with callDepth := m.callDepth + 1 }) : x.withinCall.Finishes m := by
  intro m' h
  cases hrun : x { m with callDepth := m.callDepth + 1 } with
  | ok a m₁ =>
      rw [withinCall_ok hrun] at h
      cases h
  | error halt m₁ =>
      rw [withinCall_error hrun] at h
      cases h
      exact hx m₁ hrun

theorem withinConstruction {x : Eval α} {m : Machine} {name : String}
    (hx : x.Finishes { m with constructing := name :: m.constructing }) :
    (x.withinConstruction name).Finishes m := by
  intro m' h
  cases hrun : x { m with constructing := name :: m.constructing } with
  | ok a m₁ =>
      rw [withinConstruction_ok hrun] at h
      cases h
  | error halt m₁ =>
      rw [withinConstruction_error hrun] at h
      cases h
      exact hx m₁ hrun

end Finishes

end Eval

/-! ## Rules

Between two guards the machines are balanced, so that what is left of the limits stays the same. -/

/-- The evaluator finishes on the expressions as long as no guard was passed. -/
def Evaluator.FinishesOn (ev : Evaluator) (es : List Expr) (m : Machine) : Prop :=
  ∀ e ∈ es, ∀ env m₁, m.Balanced m₁ → (ev e env).Finishes m₁

/-- The evaluator finishes on the expressions of the program once a guard was passed. -/
def Evaluator.FinishesBelow (ev : Evaluator) (p : Program) (m : Machine) : Prop :=
  ∀ e, p.Holds e → ∀ env m₁, p.slack m₁ < p.slack m → (ev e env).Finishes m₁

namespace Evaluator

variable {ev : Evaluator} {p : Program} {es es' : List Expr} {m m₁ : Machine}

theorem FinishesOn.later (h : ev.FinishesOn es m) (hm : m.Balanced m₁) :
    ev.FinishesOn es m₁ :=
  fun e he env _ h₂ => h e he env _ (hm.trans h₂)

theorem FinishesOn.mono (h : ev.FinishesOn es m) (hsub : ∀ e ∈ es', e ∈ es) :
    ev.FinishesOn es' m :=
  fun e he => h e (hsub e he)

theorem FinishesOn.at (h : ev.FinishesOn es m) {e : Expr} (he : e ∈ es) (env : Environment) :
    (ev e env).Finishes m :=
  h e he env m (.refl m)

theorem FinishesBelow.later (h : ev.FinishesBelow p m) (hm : m.Balanced m₁) :
    ev.FinishesBelow p m₁ := by
  intro e he env m₂ hlt
  rw [p.slack_eq_of_balanced hm] at hlt
  exact h e he env m₂ hlt

end Evaluator

namespace Eval.Finishes

open Machine

variable {p : Program} {ev : Evaluator} {m : Machine}

theorem bool {e : Expr} {env : Environment} (h : (ev e env).Finishes m) :
    (Eval.bool ev e env).Finishes m := by
  refine andThen h fun v m₁ => ?_
  cases v <;> exact nofun

theorem int {e : Expr} {env : Environment} (h : (ev e env).Finishes m) :
    (Eval.int ev e env).Finishes m := by
  refine andThen h fun v m₁ => ?_
  cases v <;> exact nofun

theorem receiver {r : Option Expr} (h : ev.FinishesOn r.toList m) (env : Environment) :
    (Eval.receiver ev env r).Finishes m := by
  cases r with
  | none => exact of_ok rfl
  | some e => exact h.at List.mem_cons_self env

theorem arguments (hev : ev.Keeps Balanced) (env : Environment) (args : List Expr) :
    ∀ {m}, ev.FinishesOn args m → (Eval.arguments ev env args).Finishes m := by
  induction args with
  | nil => intro m _; exact of_ok rfl
  | cons e args ih =>
      intro m h
      refine bind (h.at List.mem_cons_self env) (hev e env m) fun v m₁ h₁ => ?_
      have hargs := (h.later h₁).mono fun _ => List.mem_cons_of_mem e
      exact andThen (ih hargs) fun vs m₂ => of_ok rfl

theorem sequence (hev : ev.Keeps Balanced) (env : Environment) (body : List Expr) :
    ∀ {last m}, ev.FinishesOn body m → (Eval.sequence ev env last body).Finishes m := by
  induction body with
  | nil => intro last m _; exact of_ok rfl
  | cons e body ih =>
      intro last m h
      refine bind (h.at List.mem_cons_self env) (hev e env m) fun v m₁ h₁ => ?_
      exact ih ((h.later h₁).mono fun _ => List.mem_cons_of_mem e)

theorem initialValue (env : Environment) (b : Binding) (h : ev.FinishesOn b.init.toList m) :
    (Eval.initialValue ev env b).Finishes m := by
  unfold Eval.initialValue
  cases hinit : b.init with
  | none => exact of_ok rfl
  | some e => exact h.at (by rw [hinit]; exact List.mem_cons_self) env

theorem bindings (p : Program) (hev : ev.Keeps Balanced) (bs : List Binding) :
    ∀ {env m}, ev.FinishesOn (bs.filterMap (·.init)) m →
      (Eval.bindings ev env bs).Finishes m := by
  induction bs with
  | nil => intro env m _; exact of_ok rfl
  | cons b bs ih =>
      intro env m h
      have hR := conserved_balanced p
      have hb : ev.FinishesOn b.init.toList m :=
        h.mono fun e he => List.mem_filterMap.mpr ⟨b, List.mem_cons_self, Option.mem_toList.mp he⟩
      have hbs : ev.FinishesOn (bs.filterMap (·.init)) m := by
        refine h.mono fun e he => ?_
        obtain ⟨b', hb', he⟩ := List.mem_filterMap.mp he
        exact List.mem_filterMap.mpr ⟨b', List.mem_cons_of_mem b hb', he⟩
      rw [bindings_cons]
      refine bind (initialValue env b hb) (hR.initialValue hev env b m) fun v m₁ h₁ => ?_
      refine bind (of_ok rfl) (hR.define env b.name v m₁) fun env' m₂ h₂ => ?_
      exact ih (hbs.later (h₁.trans h₂))

theorem branch {branches : List Branch} (h : ev.FinishesOn (branches.map (·.body)) m)
    (v : Value) (env : Environment) (position : Position) :
    (Eval.branch p ev v branches env position).Finishes m := by
  rcases branch_cases p ev v branches env position m with
    ⟨d, hd⟩ | ⟨className, b, distance, chosen, _, _, hchosen, heq⟩
  · exact of_fault hd
  · have hmem : chosen.body ∈ branches.map (·.body) :=
      List.mem_map.mpr ⟨chosen, (closestBranch?_eq_some hchosen).1, rfl⟩
    refine of_eq heq (bind (of_ok rfl) ((conserved_balanced p).define env chosen.name v m) ?_)
    intro env' m₁ h₁
    exact h _ hmem env' m₁ h₁

/-- The guard of a call leaves one nesting less to the body. -/
theorem dispatch (h : ev.FinishesBelow p m) (receiver : Value) (qualifier : Option String)
    (method : String) (values : List Value) (position : Position) :
    (Eval.dispatch p ev receiver qualifier method values position).Finishes m := by
  rcases dispatch_cases p ev receiver qualifier method values position m with
    ⟨d, hd⟩ | ⟨className, b, found, _, hfind, hfound, heq⟩
  · exact of_fault hd
  refine of_eq heq ?_
  cases hprim : found.primitive? with
  | some operation =>
      rw [invoke, hprim]
      exact perform operation receiver values position m
  | none =>
      rcases invoke_cases p ev receiver values position m hprim with hd | ⟨hlt, heq⟩
      · exact of_fault hd
      refine of_eq heq (withinCall (bind (bindFormals _ _ _ _)
        ((conserved_balanced p).bindFormals _ _ _ _) fun env m₁ h₁ => ?_))
      have hslack : p.slack m₁ < p.slack m := by
        rw [p.slack_eq_of_balanced h₁]
        unfold Program.slack
        dsimp only
        omega
      exact h _ (.body hfind hfound) env m₁ hslack

theorem name (h : ev.FinishesBelow p m) (x : String) (env : Environment)
    (position : Position) : (Eval.name p ev x env position).Finishes m := by
  rcases name_cases p ev x env position m with ⟨v, hrun⟩ | hrun
  · exact of_ok hrun
  · exact of_eq hrun (dispatch h env.self none x [] position)

theorem runInitializers (hev : ev.Keeps Balanced) (place : Nat) (slots : List Attribute) :
    ∀ {m}, ev.FinishesOn (slots.filterMap (·.init)) m →
      (Eval.runInitializers ev place slots).Finishes m := by
  induction slots with
  | nil => intro m _; exact of_ok rfl
  | cons slot slots ih =>
      intro m h
      rw [runInitializers_cons, fillSlot]
      cases hinit : slot.init with
      | none =>
          rw [List.filterMap_cons_none hinit] at h
          exact ih h
      | some init =>
          rw [List.filterMap_cons_some hinit] at h
          simp only [bind_assoc]
          refine bind (h.at List.mem_cons_self _) (hev init _ m) fun v m₁ h₁ => ?_
          refine bind (of_ok rfl) ⟨rfl, rfl⟩ fun _ m₂ h₂ => ?_
          exact ih ((h.later (h₁.trans h₂)).mono fun _ => List.mem_cons_of_mem init)

/-- The guard of a construction leaves one nesting less to the initial values. -/
theorem construct (hev : ev.Keeps Balanced) (h : ev.FinishesBelow p m) (className : String)
    (position : Position) : (Eval.construct p ev className position).Finishes m := by
  cases hfind : p.classes.find? className with
  | none =>
      exact andThen (guardConstruction p className position m) fun _ m₁ =>
        of_fault (bind_error (blueprint_of_none hfind position m₁))
  | some b =>
      rcases construct_cases ev position m hfind with ⟨cause, _, hd⟩ | ⟨_, hlt, heq⟩
      · exact of_fault hd
      refine of_eq heq (andThen (withinConstruction (runInitializers hev _ _ ?_))
        fun _ _ => of_ok rfl)
      intro e he env m₁ h₁
      obtain ⟨slot, hslot, hinit⟩ := List.mem_filterMap.mp he
      have hslack : p.slack m₁ < p.slack m := by
        rw [p.slack_eq_of_balanced h₁]
        unfold Program.slack
        simp only [List.length_cons]
        omega
      exact h e (.init hfind hslot hinit) env m₁ hslack

theorem instantiate (hev : ev.Keeps Balanced) (h : ev.FinishesBelow p m) (className : String)
    (position : Position) : (Eval.instantiate p ev className position).Finishes m := by
  unfold Eval.instantiate
  split
  · exact of_ok rfl
  · split
    · exact of_ok rfl
    · split
      · exact of_ok rfl
      · exact construct hev h className position

theorem newClass (typeName : String) (env : Environment) (position : Position) (m : Machine) :
    (Eval.newClass typeName env position).Finishes m := by
  unfold Eval.newClass
  split
  · refine andThen (of_ok rfl) fun name m₁ => ?_
    cases name <;> exact nofun
  · exact of_ok rfl

theorem arithmetic (op : BinaryOp) (a b : Int64) (position : Position) (m : Machine) :
    (Eval.arithmetic op a b position).Finishes m := by
  unfold Eval.arithmetic
  cases op with
  | divide => dsimp only; split <;> exact nofun
  | _ => exact of_ok rfl

theorem binary (p : Program) (hev : ev.Keeps Balanced) {left right : Expr}
    (h : ev.FinishesOn [left, right] m) (op : BinaryOp) (env : Environment)
    (position : Position) : (Eval.binary ev op left right env position).Finishes m := by
  have hleft := h.at List.mem_cons_self env
  have hright : ∀ m₁, m.Balanced m₁ → (ev right env).Finishes m₁ :=
    fun m₁ h₁ => h right (List.mem_cons_of_mem left List.mem_cons_self) env m₁ h₁
  unfold Eval.binary
  split
  · exact bind hleft (hev left env m) fun a m₁ h₁ =>
      andThen (hright m₁ h₁) fun b m₂ => of_ok rfl
  · exact bind (int hleft) ((conserved_balanced p).int hev left env m) fun a m₁ h₁ =>
      andThen (int (hright m₁ h₁)) fun b m₂ => arithmetic op a b position m₂

/-- One level of evaluation finishes if those below it do. -/
theorem step (hev : ev.Keeps Balanced) (hbelow : ev.FinishesBelow p m) (rounds : Nat) {e : Expr}
    (hloop : e.isLoop = false) (h : ev.FinishesOn e.children m) (env : Environment) :
    (Eval.step p ev rounds e env).Finishes m := by
  have hR := conserved_balanced p
  cases e with
  | int | str | bool | self => exact of_ok rfl
  | primitive => exact nofun
  | loop => cases hloop
  | name n span => exact name hbelow n env span.start
  | assign n value span =>
      exact andThen (h.at List.mem_cons_self env) fun v m₁ =>
        andThen (assign env n v span.start m₁) fun _ _ => of_ok rfl
  | dispatch r qualifier method args span =>
      have hr : ev.FinishesOn r.toList m := h.mono fun _ => List.mem_append_left args
      have hargs : ev.FinishesOn args m := h.mono fun _ => List.mem_append_right r.toList
      rw [step_dispatch]
      refine bind (receiver hr env) (hR.receiver hev r env m) fun self m₁ h₁ => ?_
      refine bind (arguments hev env args (hargs.later h₁)) (hR.arguments hev env args m₁)
        fun values m₂ h₂ => ?_
      exact dispatch (hbelow.later (h₁.trans h₂)) self qualifier method values span.start
  | new typeName span =>
      exact bind (newClass typeName env span.start m) (hR.newClass typeName env span.start m)
        fun className m₁ h₁ => instantiate hev (hbelow.later h₁) className span.start
  | cond c t f span =>
      refine bind (bool (h.at List.mem_cons_self env)) (hR.bool hev c env m) fun b m₁ h₁ => ?_
      cases b with
      | true => exact h t (by simp [Expr.children]) env m₁ h₁
      | false => exact h f (by simp [Expr.children]) env m₁ h₁
  | block body span => exact sequence hev env body h
  | letIn bs body span =>
      have hbs : ev.FinishesOn (bs.filterMap (·.init)) m :=
        h.mono fun _ => List.mem_append_left [body]
      refine bind (bindings p hev bs hbs) (hR.bindings hev bs env m) fun env' m₁ h₁ => ?_
      exact h body (List.mem_append_right _ List.mem_cons_self) env' m₁ h₁
  | caseOf scrutinee branches span =>
      refine bind (h.at List.mem_cons_self env) (hev scrutinee env m) fun v m₁ h₁ => ?_
      exact branch ((h.later h₁).mono fun _ => List.mem_cons_of_mem scrutinee) v env span.start
  | isVoid operand span => exact andThen (h.at List.mem_cons_self env) fun _ _ => of_ok rfl
  | unary op operand span =>
      have hoperand := h.at List.mem_cons_self env
      cases op with
      | negate => exact andThen (int hoperand) fun _ _ => of_ok rfl
      | not => exact andThen (bool hoperand) fun _ _ => of_ok rfl
  | binary op left right span => exact binary p hev h op env span.start

/-- Fuel suffices that covers the nodes of the expression and, for each nesting the limits still
allow, the nodes of any expression of the program. -/
theorem eval {M : Nat} (hp : ∀ e, p.Holds e → e.LoopFree ∧ e.height ≤ M) (fuel : Nat) :
    ∀ {e : Expr} {m : Machine}, e.LoopFree → e.height + p.slack m * M ≤ fuel →
      ∀ env, (CoolLang.eval p fuel e env).Finishes m := by
  induction fuel with
  | zero =>
      intro e m _ hfuel
      have := e.height_pos
      omega
  | succ fuel ih =>
      intro e m he hfuel env
      refine step ((conserved_balanced p).eval fuel) ?_ fuel ?_ ?_ env
      · -- behind a guard there is one nesting less, which pays for a whole expression
        intro e' he' env' m₁ hslack
        obtain ⟨hfree, hheight⟩ := hp e' he'
        refine ih hfree ?_ env'
        have hpay : (p.slack m₁ + 1) * M ≤ p.slack m * M := Nat.mul_le_mul_right M hslack
        rw [Nat.add_mul, Nat.one_mul] at hpay
        have := e.height_pos
        omega
      · simpa using Expr.every_self he
      · intro e' he' env' m₁ h₁
        refine ih (Expr.every_of_mem_children he he') ?_ env'
        have := Expr.height_lt_of_mem_children he'
        rw [p.slack_eq_of_balanced h₁]
        omega

end Eval.Finishes

/-! ## Programs -/

theorem Program.Holds.mem_expressions {h : Hierarchy} {s : Settings} {e : Expr}
    (he : (ofHierarchy h s).Holds e) : e ∈ h.expressions := by
  cases he with
  | body hb hm =>
      obtain ⟨-, rfl⟩ := ClassTable.find?_ofHierarchy_eq_some hb
      obtain ⟨c, hc, hfound, -⟩ := Blueprint.findMethod?_eq_some hm
      refine List.mem_flatMap.mpr ⟨c, Hierarchy.mem_classes_of_mem_ancestors hc, ?_⟩
      exact List.mem_append_left _ (List.mem_map_of_mem (List.mem_of_find?_eq_some hfound))
  | init hb hslot he =>
      obtain ⟨-, rfl⟩ := ClassTable.find?_ofHierarchy_eq_some hb
      obtain ⟨c, hc, hattr⟩ := Blueprint.mem_layoutOf hslot
      refine List.mem_flatMap.mpr ⟨c, Hierarchy.mem_classes_of_mem_ancestors hc, ?_⟩
      exact List.mem_append_right _ (List.mem_filterMap.mpr ⟨_, hattr, he⟩)

/-- How much fuel an expression without loops needs at most in a program without loops. -/
def Hierarchy.fuelFor (h : Hierarchy) (maxCallDepth maxConstructionDepth : Nat) (e : Expr) : Nat :=
  e.height + (maxCallDepth + maxConstructionDepth) * heightOfExprs h.expressions

/-- **Only loops run on.** If neither the classes nor the expression hold a loop, then evaluation
comes to an end in every environment and from every machine, whatever nestings the machine has
counted already: the fuel that the program, the expression and the two limits ask for is enough, and
more of it changes nothing. -/
theorem eval_ends_of_loopFree (h : Hierarchy) (s : Settings) (e : Expr)
    (hclasses : ∀ e ∈ h.expressions, e.LoopFree) (he : e.LoopFree) (env : Environment)
    (m : Machine) :
    ∃ r, (∀ m', r ≠ .error .outOfFuel m') ∧
      ∀ fuel, h.fuelFor s.maxCallDepth s.maxConstructionDepth e ≤ fuel →
        eval (.ofHierarchy h s) fuel e env m = r := by
  let p := Program.ofHierarchy h s
  have hp : ∀ e, p.Holds e → e.LoopFree ∧ e.height ≤ heightOfExprs h.expressions := fun e he' =>
    ⟨hclasses e he'.mem_expressions, heightOfExprs_ge he'.mem_expressions⟩
  have hfuel : e.height + p.slack m * heightOfExprs h.expressions ≤
      h.fuelFor s.maxCallDepth s.maxConstructionDepth e :=
    Nat.add_le_add_left (Nat.mul_le_mul_right _ (p.slack_le m)) _
  have hfin := Eval.Finishes.eval hp _ he hfuel env
  exact ⟨_, hfin, fun fuel hle => eval_of_le p hle hfin⟩

/-- Two classes that inherit from each other. Objects of the first start with one of the second,
and a method calls itself for ever. -/
def Hierarchy.entangled : Hierarchy :=
  let spin : MethodDecl :=
    ⟨"spin", [], ClassName.object, .dispatch none none "spin" [] .nowhere, .nowhere⟩
  let twin : AttributeDecl := ⟨"twin", "Right", some (.new "Right" .nowhere), .nowhere⟩
  (Hierarchy.ofProgram
    [⟨"Left", some "Right", [.attr twin, .method spin], .nowhere⟩,
      ⟨"Right", some "Left", [], .nowhere⟩]).1

theorem eval_ends_of_loopFree_entangled :
    (∀ e ∈ Hierarchy.entangled.expressions, e.LoopFree) ∧
    (Expr.dispatch (some (.new "Left" .nowhere)) none "spin" [] .nowhere).LoopFree ∧
    ∃ r, (∀ m', r ≠ .error .outOfFuel m') ∧
      ∀ fuel, Hierarchy.entangled.fuelFor 30 20
          (.dispatch (some (.new "Left" .nowhere)) none "spin" [] .nowhere) ≤ fuel →
        eval (.ofHierarchy .entangled { maxCallDepth := 30, maxConstructionDepth := 20 }) fuel
          (.dispatch (some (.new "Left" .nowhere)) none "spin" [] .nowhere) (.ofSelf .void)
          (.initial .entangled []) = r := by
  have hclasses : ∀ e ∈ Hierarchy.entangled.expressions, e.LoopFree := by decide +kernel
  exact ⟨hclasses, by decide +kernel,
    eval_ends_of_loopFree .entangled { maxCallDepth := 30, maxConstructionDepth := 20 } _
      hclasses (by decide +kernel) (.ofSelf .void) (.initial .entangled [])⟩

end CoolLang
