import CoolLang.Hierarchy.Validation
import CoolLang.Proofs.Evaluation.Conservation

/-!
# Reached machines

Evaluation is asked for a value, for a call or for an object. In the course of it, expressions are
evaluated with machines of their own, calls and constructions begin and end. The machines that all
this passes through, whatever is asked and however often it fails, are the reached ones. What holds
at the start and is preserved by the operations holds of all of them; so do the bounds that the
guards are there for.
-/

namespace CoolLang

/-- What evaluation is asked for. -/
inductive Request where
  | eval (e : Expr) (env : Environment)
  | dispatch (receiver : Value) (qualifier : Option String) (method : String)
      (arguments : List Value) (position : Position)
  | instantiate (className : String) (position : Position)

namespace Request

/-- The environment of the request. Calls and constructions see none of the local variables that
exist. -/
def env : Request → Environment
  | eval _ env => env
  | dispatch receiver _ _ _ _ => .ofSelf receiver
  | instantiate _ _ => .ofSelf .void

/-- Meets the request with an evaluator for the expressions that it comes to. -/
def meet (p : Program) (ev : Evaluator) (rounds : Nat) : Request → Eval Value
  | eval e env => Eval.step p ev rounds e env
  | dispatch receiver qualifier method arguments position =>
    Eval.dispatch p ev receiver qualifier method arguments position
  | instantiate className position => Eval.instantiate p ev className position

/-- Meets the request with some fuel. -/
def run (p : Program) : Nat → Request → Eval Value
  | 0, _ => Eval.outOfFuel
  | fuel + 1, r => r.meet p (CoolLang.eval p fuel) fuel

theorem run_eval (p : Program) (fuel : Nat) (e : Expr) (env : Environment) :
    (Request.eval e env).run p fuel = CoolLang.eval p fuel e env := by
  cases fuel <;> rfl

end Request

variable {p : Program} {m start : Machine}

namespace Regime.Lawful

variable {G : Regime}

theorem meet (hG : G.Lawful p) (hexpr : ∀ e, G.expr e) (hmakes : ∀ className, G.makes className)
    {ev : Evaluator} (hev : ev.Obeys G) (hobj : ev.Keeps Machine.KeepsObjects) (rounds : Nat)
    (r : Request) (hm : G.machine m) : (r.meet p ev rounds).Obeys G r.env m := by
  cases r with
  | eval e env => exact hG.step hev hobj rounds (hexpr e) hm
  | dispatch receiver qualifier method arguments position =>
      exact hG.dispatch hev receiver qualifier method arguments position hm
  | instantiate className position =>
      exact hG.instantiate hev hobj (hmakes className) position hm

theorem run (hG : G.Lawful p) (hexpr : ∀ e, G.expr e) (hmakes : ∀ className, G.makes className)
    (fuel : Nat) (r : Request) (hm : G.machine m) : (r.run p fuel).Obeys G r.env m := by
  cases fuel with
  | zero => exact .of_error rfl (hG.refl _ m) hG.outOfFuel
  | succ fuel =>
      exact hG.meet hexpr hmakes (hG.eval fuel) (Machine.keepsObjects_eval p fuel) fuel r hm

end Regime.Lawful

theorem Conserved.run {R : Machine → Machine → Prop} (hR : Conserved p R) (fuel : Nat)
    (r : Request) (m : Machine) : R m ((r.run p fuel).final m) :=
  (hR.lawful.run (fun _ => trivial) (fun _ => trivial) fuel r trivial).change

/-! ## Reached machines -/

namespace Machine

/-- The machine once a call has begun. -/
def beginCall (m : Machine) : Machine :=
  { m with callDepth := m.callDepth + 1 }

/-- The machine once the construction of an object has begun. -/
def beginConstruction (m : Machine) (name : String) (b : Blueprint) : Machine :=
  { m with
    store := m.store.addObject (.ofBlueprint b)
    constructing := name :: m.constructing }

/-- The machine once the innermost call has ended. -/
def endCall (m : Machine) : Machine :=
  { m with callDepth := m.callDepth - 1 }

/-- The machine once the innermost construction has ended. -/
def endConstruction (m : Machine) : Machine :=
  { m with constructing := m.constructing.tail }

end Machine

/-- A computation that is given an evaluator comes to evaluate the expression with the environment
and the machine `m'`: if that one evaluation halts, for whatever reason, then so does the
computation. -/
def Asks {α : Type} (F : Evaluator → Eval α) (ev : Evaluator) (m : Machine) (e : Expr)
    (env : Environment) (m' : Machine) : Prop :=
  ∀ ev' reason,
    (∀ e₁ env₁ m₁, ¬(e₁ = e ∧ env₁ = env ∧ m₁ = m') → ev' e₁ env₁ m₁ = ev e₁ env₁ m₁) →
    ev' e env m' = .error reason m' → ∃ m₁, F ev' m = .error reason m₁

namespace Asks

open Eval

variable {ev : Evaluator} {b : Blueprint} {e : Expr} {position : Position}

/-- A construction comes to evaluate the initial value of the first attribute. -/
theorem instantiate {name : String} {slot : Attribute} {slots : List Attribute}
    (huser : name ∉ ClassName.builtins) (hguard : guardConstruction p name position m = .ok () m)
    (hb : p.classes.find? name = some b) (hlayout : b.layout = slot :: slots)
    (hinit : slot.init = some e) :
    Asks (fun ev => Eval.instantiate p ev name position) ev m e
      (.ofSelf (.object m.store.objects.size)) (m.beginConstruction name b) := by
  intro ev' reason _ hstop
  obtain ⟨hobject, hio, hint, hstring, hbool⟩ : name ≠ ClassName.object ∧ name ≠ ClassName.io ∧
      name ≠ ClassName.int ∧ name ≠ ClassName.string ∧ name ≠ ClassName.bool := by
    simpa [ClassName.builtins] using huser
  have hfill : runInitializers ev' m.store.objects.size b.layout (m.beginConstruction name b) =
      .error reason (m.beginConstruction name b) := by
    rw [hlayout, runInitializers_cons]
    refine bind_error ?_
    simp only [fillSlot, hinit]
    exact bind_error hstop
  have hrun : construct p ev' name position m =
      .error reason { m.beginConstruction name b with constructing := m.constructing } := by
    refine (bind_ok hguard).trans ((bind_ok (blueprint_of_some hb position m)).trans ?_)
    exact (bind_ok rfl).trans (bind_error (withinConstruction_error hfill))
  have huse : Eval.instantiate p ev' name position = construct p ev' name position := by
    rw [Eval.instantiate, if_neg (by simp [ClassName.finals, hint, hstring, hbool]),
      if_neg hobject, if_neg hio]
  exact ⟨_, (congrFun huse m).trans hrun⟩

/-- A call comes to evaluate the body of the method. -/
theorem dispatch {receiver : Value} {qualifier : Option String} {method className : String}
    {values : List Value} {found : Method} {env : Environment} {m' : Machine}
    (hc : receiver.className? m.store = some className)
    (hb : p.classes.find? (qualifier.getD className) = some b)
    (hfound : b.findMethod? method values.length = some found) (hprim : found.primitive? = none)
    (hguard : guardCall p position m = .ok () m)
    (hbind : bindFormals (.ofSelf receiver) found.formals values m.beginCall = .ok env m') :
    Asks (fun ev => Eval.dispatch p ev receiver qualifier method values position) ev m found.body
      env m' := by
  intro ev' reason _ hstop
  have hrun : invoke p ev' receiver found values position m =
      .error reason { m' with callDepth := m'.callDepth - 1 } := by
    rw [invoke, hprim]
    exact (bind_ok hguard).trans (withinCall_error ((bind_ok hbind).trans hstop))
  exact ⟨_, (dispatch_found hc hb hfound).trans hrun⟩

end Asks

/-- The machines that requests pass through, one request after the other and one inside the
other. Between two requests that it makes in turn, what is under way keeps values in variables and
fields, and calls and constructions begin and end. -/
inductive Reaches (p : Program) (start : Machine) : Machine → Prop where
  | start : Reaches p start start
  /-- A request was met or failed. -/
  | done {m : Machine} (hm : Reaches p start m) (fuel : Nat) (r : Request) :
      Reaches p start ((r.run p fuel).final m)
  /-- An expression is evaluated in the course of a request. -/
  | inside {m m' : Machine} (hm : Reaches p start m) (fuel : Nat) (r : Request) {e : Expr}
      {env : Environment} (hasks : Asks (r.meet p · fuel) (eval p fuel) m e env m') :
      Reaches p start m'
  /-- A call has begun. -/
  | call {m : Machine} (hm : Reaches p start m) {position : Position}
      (hguard : Eval.guardCall p position m = .ok () m) :
      Reaches p start m.beginCall
  /-- A construction has begun. -/
  | construction {m : Machine} (hm : Reaches p start m) {name : String} {position : Position}
      {b : Blueprint} (huser : name ∉ ClassName.builtins)
      (hguard : Eval.guardConstruction p name position m = .ok () m)
      (hb : p.classes.find? name = some b) :
      Reaches p start (m.beginConstruction name b)
  /-- A local variable begins to exist. -/
  | addCell {m : Machine} (hm : Reaches p start m) (v : Value) :
      Reaches p start { m with store := m.store.addCell v }
  /-- A local variable is assigned. -/
  | setCell {m : Machine} (hm : Reaches p start m) (place : Nat) (v : Value) :
      Reaches p start { m with store := m.store.setCell place v }
  /-- An attribute is initialised or assigned. -/
  | setField {m : Machine} (hm : Reaches p start m) {place : Nat} {o : Object} {name : String}
      (v : Value) (ho : m.store.object? place = some o)
      (hname : o.blueprint.hasAttribute name = true) :
      Reaches p start { m with store := m.store.setField place name v }
  /-- A call has ended. -/
  | callEnd {m : Machine} (hm : Reaches p start m) (hopen : 0 < m.callDepth) :
      Reaches p start m.endCall
  /-- A construction has ended. -/
  | constructionEnd {m : Machine} (hm : Reaches p start m) (hopen : m.constructing ≠ []) :
      Reaches p start m.endConstruction

namespace Evaluator

/-- The evaluator, but one of its evaluations is a fault that evaluation never stops for. -/
noncomputable def stopAt (ev : Evaluator) (e : Expr) (env : Environment) (m : Machine) :
    Evaluator := fun e₁ env₁ m₁ =>
  open Classical in
  if e₁ = e ∧ env₁ = env ∧ m₁ = m then Eval.fault .missingMainClass .nowhere m₁
  else ev e₁ env₁ m₁

variable (ev : Evaluator) {e e₁ : Expr} {env env₁ : Environment} {m m₁ : Machine}

theorem stopAt_self :
    ev.stopAt e env m e env m = .error (.fault ⟨.missingMainClass, .nowhere⟩) m :=
  if_pos ⟨rfl, rfl, rfl⟩

theorem stopAt_of_ne (hne : ¬(e₁ = e ∧ env₁ = env ∧ m₁ = m)) :
    ev.stopAt e env m e₁ env₁ m₁ = ev e₁ env₁ m₁ :=
  if_neg hne

theorem stopAt_cases (e e₁ : Expr) (env env₁ : Environment) (m m₁ : Machine) :
    (m₁ = m ∧ ev.stopAt e env m e₁ env₁ m₁ =
      .error (.fault ⟨.missingMainClass, .nowhere⟩) m₁) ∨
    ev.stopAt e env m e₁ env₁ m₁ = ev e₁ env₁ m₁ := by
  by_cases hsame : e₁ = e ∧ env₁ = env ∧ m₁ = m
  · obtain ⟨rfl, rfl, rfl⟩ := hsame
    exact Or.inl ⟨rfl, ev.stopAt_self⟩
  · exact Or.inr (ev.stopAt_of_ne hsame)

end Evaluator

/-- **Invariants of reached machines.** -/
theorem Reaches.invariant {I : Machine → Prop} (hI : Invariant p I) (hstart : I start)
    (hm : Reaches p start m) : I m := by
  induction hm with
  | start => exact hstart
  | done _ fuel r ih =>
      exact (hI.lawful.run (fun _ => trivial) (fun _ => trivial) fuel r ih).change ih
  | @inside m m' _ fuel r e env hasks ih =>
      by_contra hnot
      -- with the invariant broken, nothing is asked of this one evaluation
      have hev : ((eval p fuel).stopAt e env m').Obeys (.ofInvariant I) := by
        intro e₁ env₁ m₁ _ hm₁
        rcases (eval p fuel).stopAt_cases e e₁ env env₁ m' m₁ with ⟨rfl, -⟩ | hrun
        · exact absurd hm₁ hnot
        · exact .of_eq hrun (hI.lawful.eval fuel trivial hm₁)
      have hobj : ((eval p fuel).stopAt e env m').Keeps Machine.KeepsObjects := by
        intro e₁ env₁ m₁
        rcases (eval p fuel).stopAt_cases e e₁ env env₁ m' m₁ with ⟨-, hrun⟩ | hrun
        · rw [Eval.final_error hrun]
          exact .refl m₁.store
        · rw [Eval.final, hrun]
          exact Machine.keepsObjects_eval p fuel e₁ env₁ m₁
      obtain ⟨m₁, hrun⟩ := hasks _ _ (fun _ _ _ => (eval p fuel).stopAt_of_ne)
        (eval p fuel).stopAt_self
      have hmeet := hI.lawful.meet (fun _ => trivial) (fun _ => trivial) hev hobj fuel r ih
      have hruntime : Cause.isRuntime .missingMainClass = true := hmeet.halt hrun
      cases hruntime
  | call _ hguard ih => exact hI.call (Eval.guardCall_eq_ok hguard).2 ih
  | @construction m _ name _ b huser hguard hb ih =>
      obtain ⟨-, hfresh, hdepth⟩ := Eval.guardConstruction_eq_ok hguard
      exact hI.construction (m := { m with store := m.store.addObject (.ofBlueprint b) })
        hb huser hfresh hdepth (hI.create hb ih)
  | addCell _ v ih => exact hI.addCell v ih
  | setCell _ place v ih => exact hI.setCell place v ih
  | setField _ v ho hname ih => exact hI.setField v ho hname ih
  | callEnd _ _ ih => exact hI.callEnd ih
  | constructionEnd _ _ ih => exact hI.constructionEnd ih

/-! ## The guards -/

/-- Calls and constructions are not nested deeper than they may be, and no class is under
construction twice. -/
structure Machine.Guarded (p : Program) (m : Machine) : Prop where
  callDepth : m.callDepth ≤ p.maxCallDepth
  constructing : m.constructing.length ≤ p.maxConstructionDepth
  nodup : m.constructing.Nodup

namespace Machine

theorem guarded_initial (p : Program) (h : Hierarchy) (input : Input) :
    (initial h input).Guarded p :=
  ⟨Nat.zero_le _, Nat.zero_le _, List.nodup_nil⟩

theorem invariant_guarded (p : Program) : Invariant p (Guarded p) where
  write _ hm := ⟨hm.callDepth, hm.constructing, hm.nodup⟩
  read hm := ⟨hm.callDepth, hm.constructing, hm.nodup⟩
  create _ hm := ⟨hm.callDepth, hm.constructing, hm.nodup⟩
  copy _ hm := ⟨hm.callDepth, hm.constructing, hm.nodup⟩
  addCell _ hm := ⟨hm.callDepth, hm.constructing, hm.nodup⟩
  setCell _ _ hm := ⟨hm.callDepth, hm.constructing, hm.nodup⟩
  setField _ _ _ hm := ⟨hm.callDepth, hm.constructing, hm.nodup⟩
  call hdepth hm := ⟨hdepth, hm.constructing, hm.nodup⟩
  callEnd hm := ⟨Nat.le_trans (Nat.sub_le _ _) hm.callDepth, hm.constructing, hm.nodup⟩
  construction _ _ hfresh hdepth hm :=
    ⟨hm.callDepth, hdepth, List.nodup_cons.mpr ⟨hfresh, hm.nodup⟩⟩
  constructionEnd {m} hm := by
    have hlength : m.constructing.tail.length ≤ m.constructing.length := by simp
    exact ⟨hm.callDepth, Nat.le_trans hlength hm.constructing, hm.nodup.tail⟩

end Machine

/-- **The guards hold.** For every program, whatever is asked of a machine and whether it fails or
not, afterwards calls and constructions are nested as deep as before, and text was only added to the
output. In every machine that is reached from a machine at rest, calls and constructions are not
nested deeper than they may be, and no class is under construction twice. -/
theorem guards_hold (p : Program) :
    (∀ (fuel : Nat) (r : Request) (m : Machine),
      ((r.run p fuel).final m).callDepth = m.callDepth ∧
      ((r.run p fuel).final m).constructing = m.constructing ∧
      ∃ text, ((r.run p fuel).final m).output = m.output ++ text) ∧
    ∀ (h : Hierarchy) (input : Input) (m : Machine), Reaches p (.initial h input) m →
      m.callDepth ≤ p.maxCallDepth ∧ m.constructing.length ≤ p.maxConstructionDepth ∧
      m.constructing.Nodup := by
  constructor
  · intro fuel r m
    have hbalanced := (Machine.conserved_balanced p).run fuel r m
    exact ⟨hbalanced.callDepth, hbalanced.constructing,
      (Machine.conserved_writesOn p).run fuel r m⟩
  · intro h input m hm
    have hguarded := hm.invariant (Machine.invariant_guarded p) (Machine.guarded_initial p h input)
    exact ⟨hguarded.callDepth, hguarded.constructing, hguarded.nodup⟩

/-- A machine has a part, and the part is not finished before one of its methods was called. -/
def Hierarchy.workshop : Hierarchy :=
  let part : AttributeDecl := ⟨"part", "Part", some (.new "Part" .nowhere), .nowhere⟩
  let fit : MethodDecl := ⟨"fit", [], ClassName.object, .self .nowhere, .nowhere⟩
  let fitted : AttributeDecl :=
    ⟨"fitted", ClassName.object, some (.dispatch none none "fit" [] .nowhere), .nowhere⟩
  (Hierarchy.ofProgram
    [⟨ClassName.mainClass, none, [.attr part], .nowhere⟩,
      ⟨"Part", none, [.attr fitted, .method fit], .nowhere⟩]).1

def Program.workshop : Program := ⟨.ofHierarchy .workshop, 1, 2⟩

/-- The machine in the course of the method. -/
def Machine.fitting : Machine :=
  let start := initial .workshop []
  { start with
    store := start.store
      |>.addObject (.ofBlueprint (.ofClass .workshop ClassName.mainClass))
      |>.addObject (.ofBlueprint (.ofClass .workshop "Part"))
    constructing := ["Part", ClassName.mainClass]
    callDepth := 1 }

theorem reaches_fitting : Reaches .workshop (.initial .workshop []) .fitting := by
  have hmain : Program.workshop.classes.find? ClassName.mainClass =
      some (.ofClass .workshop ClassName.mainClass) :=
    ClassTable.find?_ofHierarchy_of_contains (by decide +kernel)
  have hpart : Program.workshop.classes.find? "Part" = some (.ofClass .workshop "Part") :=
    ClassTable.find?_ofHierarchy_of_contains (by decide +kernel)
  have hfirst : Reaches .workshop (.initial .workshop []) _ :=
    .inside .start 2 (.instantiate ClassName.mainClass .nowhere)
      (Asks.instantiate (by decide) rfl hmain rfl rfl)
  have hsecond : Reaches .workshop (.initial .workshop []) _ :=
    hfirst.inside 1 (.eval (.new "Part" .nowhere) (.ofSelf (.object 2)))
      (Asks.instantiate (by decide) rfl hpart rfl rfl)
  exact hsecond.inside 0 (.eval (.dispatch none none "fit" [] .nowhere) (.ofSelf (.object 3)))
    (Asks.dispatch rfl hpart rfl rfl rfl rfl)

theorem guards_hold_fitting :
    Reaches .workshop (.initial .workshop []) .fitting ∧ Machine.fitting.callDepth = 1 ∧
    Machine.fitting.constructing = ["Part", "Main"] ∧
    Machine.fitting.callDepth ≤ Program.workshop.maxCallDepth ∧
    Machine.fitting.constructing.length ≤ Program.workshop.maxConstructionDepth ∧
    Machine.fitting.constructing.Nodup :=
  ⟨reaches_fitting, rfl, rfl, (guards_hold .workshop).2 .workshop [] .fitting reaches_fitting⟩

end CoolLang
