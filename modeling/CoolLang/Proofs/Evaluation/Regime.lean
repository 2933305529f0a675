import CoolLang.Proofs.Evaluation.Outcome
import CoolLang.Proofs.Expr.Traversal
import CoolLang.Proofs.Object.Blueprint
import CoolLang.Proofs.Object.Store

/-!
# Regimes

What holds throughout a run: of the machine whenever an expression is evaluated, of the change that
an evaluation makes to it, of the expressions that are evaluated, of the classes that objects are
asked of, and of the reasons to halt. If the operations on a machine keep to the regime, then so
does evaluation, at every nesting and on every exit. Facts about all runs are instances of this one
induction over the rules.
-/

namespace CoolLang

/-- Every object is still there and belongs to the class it was made for. -/
def Machine.KeepsObjects (m m' : Machine) : Prop :=
  m.store.Keeps m'.store

/-- Whatever the evaluator is asked to evaluate, the relation holds afterwards. -/
def Evaluator.Keeps (eval : Evaluator) (R : Machine → Machine → Prop) : Prop :=
  ∀ e env m, R m ((eval e env).final m)

/-- The expression is the body of a method or the initial value of an attribute. -/
inductive Program.Holds (p : Program) : Expr → Prop where
  | body {name : String} {b : Blueprint} {method : String} {arity : Nat} {found : Method}
      (hb : p.classes.find? name = some b) (hm : b.findMethod? method arity = some found) :
      Holds p found.body
  | init {name : String} {b : Blueprint} {slot : Attribute} {e : Expr}
      (hb : p.classes.find? name = some b) (hslot : slot ∈ b.layout) (he : slot.init = some e) :
      Holds p e

/-- Constructions were nested too deep. -/
def Cause.isConstructionDepth : Cause → Bool
  | .constructionDepthExceeded _ => true
  | _ => false

theorem Cause.isConstructionDepth_of_isOperational {c : Cause} (hc : c.isOperational = true) :
    c.isConstructionDepth = false := by
  cases c with
  | abort | substringOutOfRange | internal => rfl
  | _ => cases hc

/-- Evaluation ran out of fuel or stopped for a cause of its own. -/
def Halt.IsRuntime : Halt → Prop
  | .fault d => d.cause.isRuntime = true
  | .outOfFuel => True

structure Regime where
  /-- Holds of the machine that an expression is evaluated with. -/
  machine : Machine → Prop
  /-- Holds from the machine that an evaluation in the environment starts with to the one that it
  leaves, with a value or without one. -/
  change : Environment → Machine → Machine → Prop
  /-- Holds of the expressions that are evaluated. -/
  expr : Expr → Prop
  /-- Holds of the classes that objects are asked of. -/
  makes : String → Prop
  /-- Holds of the reasons to halt. -/
  halt : Halt → Prop

/-- The operations of evaluation keep to the regime. -/
structure Regime.Lawful (G : Regime) (p : Program) : Prop where
  refl : ∀ env m, G.change env m m
  trans : ∀ {env m₁ m₂ m₃}, G.change env m₁ m₂ → G.change env m₂ m₃ → G.change env m₁ m₃
  machine : ∀ {env m m'}, G.change env m m' → G.machine m → G.machine m'
  write : ∀ env m text, G.change env m { m with output := m.output ++ text }
  read : ∀ env m, G.change env m { m with input := m.input.readLine.2 }
  create : ∀ env m name b, p.classes.find? name = some b →
    G.change env m { m with store := m.store.addObject (.ofBlueprint b) }
  copy : ∀ env m v, G.change env m { m with store := (Value.copy m.store v).2 }
  addCell : ∀ env m v, G.change env m { m with store := m.store.addCell v }
  /-- Only the local variables of the environment are assigned. -/
  setCell : ∀ env m name place v, env.place? name = some place →
    G.change env m { m with store := m.store.setCell place v }
  /-- Only attributes that the object has are assigned. -/
  setField : ∀ env m place o name v, m.store.object? place = some o →
    o.blueprint.hasAttribute name = true →
    G.change env m { m with store := m.store.setField place name v }
  /-- What is evaluated with one more local variable, in a new cell, is evaluated inside. -/
  scope : ∀ {env m m'} name v,
    G.change (env.bind name m.store.cells.size) { m with store := m.store.addCell v } m' →
      G.change env m m'
  call : ∀ {m}, G.machine m → m.callDepth < p.maxCallDepth →
    G.machine { m with callDepth := m.callDepth + 1 } ∧
    ∀ {env self m'}, G.change (.ofSelf self) { m with callDepth := m.callDepth + 1 } m' →
      G.change env m { m' with callDepth := m'.callDepth - 1 }
  construction : ∀ {m name b}, G.machine m → p.classes.find? name = some b →
    name ∉ ClassName.builtins → name ∉ m.constructing →
    m.constructing.length < p.maxConstructionDepth →
    G.machine { m with constructing := name :: m.constructing } ∧
    ∀ {env self m'}, G.change (.ofSelf self) { m with constructing := name :: m.constructing } m' →
      G.change env m { m' with constructing := m'.constructing.tail }
  children : ∀ {e e' : Expr}, G.expr e → e' ∈ e.children → G.expr e'
  holds : ∀ {e}, p.Holds e → G.expr e
  new : ∀ {T span}, G.expr (.new T span) → T ≠ ClassName.selfType → G.makes T
  self : ∀ {m} {v : Value} {D}, G.machine m → v.className? m.store = some D → G.makes D
  outOfFuel : G.halt .outOfFuel
  fault : ∀ {cause : Cause} {position}, cause.isRuntime = true → cause.isConstructionDepth = false →
    G.halt (.fault ⟨cause, position⟩)
  exceeded : ∀ {m name position}, G.machine m → G.makes name → name ∉ ClassName.builtins →
    name ∉ m.constructing → p.maxConstructionDepth ≤ m.constructing.length →
    G.halt (.fault ⟨.constructionDepthExceeded p.maxConstructionDepth, position⟩)

/-- The computation, begun at the machine, keeps to the regime. -/
structure Eval.Obeys {α : Type} (G : Regime) (env : Environment) (x : Eval α) (m : Machine) :
    Prop where
  change : G.change env m (x.final m)
  halt : ∀ {reason m'}, x m = .error reason m' → G.halt reason

def Evaluator.Obeys (ev : Evaluator) (G : Regime) : Prop :=
  ∀ {e env m}, G.expr e → G.machine m → (ev e env).Obeys G env m

namespace Eval

variable {ev : Evaluator}

/-- While its attributes are filled, the object stays the one it was. -/
theorem object?_of_fillSlot (hobj : ev.Keeps Machine.KeepsObjects) {b : Blueprint}
    {slot : Attribute} {place : Nat} {m m₁ : Machine}
    (hplace : ∃ o, m.store.object? place = some o ∧ o.blueprint = b)
    (hrun : fillSlot ev place slot m = .ok () m₁) :
    ∃ o, m₁.store.object? place = some o ∧ o.blueprint = b := by
  obtain ⟨o, ho, rfl⟩ := hplace
  cases hinit : slot.init with
  | none =>
      simp only [fillSlot, hinit] at hrun
      cases hrun
      exact ⟨o, ho, rfl⟩
  | some init =>
      simp only [fillSlot, hinit] at hrun
      obtain ⟨v, m₂, hv, hset⟩ := bind_eq_ok hrun
      cases hset
      have hkeeps := hobj init (.ofSelf (.object place)) m
      rw [final_ok hv] at hkeeps
      exact Store.Keeps.trans hkeeps (m₂.store.keeps_setField place slot.name v) place o ho

end Eval

variable {G : Regime} {p : Program} {env : Environment} {m m' : Machine} {α β : Type}

namespace Eval.Obeys

theorem of_ok {x : Eval α} {a : α} (hrun : x m = .ok a m') (hm : G.change env m m') :
    x.Obeys G env m := by
  refine ⟨?_, fun h => ?_⟩
  · rw [final_ok hrun]
    exact hm
  · cases hrun.symm.trans h

theorem of_error {x : Eval α} {reason : Halt} (hrun : x m = .error reason m')
    (hm : G.change env m m') (hreason : G.halt reason) : x.Obeys G env m := by
  refine ⟨?_, fun h => ?_⟩
  · rw [final_error hrun]
    exact hm
  · cases hrun.symm.trans h
    exact hreason

theorem of_eq {x y : Eval α} (hrun : x m = y m) (hy : y.Obeys G env m) : x.Obeys G env m := by
  refine ⟨?_, fun h => hy.halt (hrun ▸ h)⟩
  rw [final, hrun]
  exact hy.change

end Eval.Obeys

namespace Regime.Lawful

open Eval

/-! ## Sequences -/

theorem ret (hG : G.Lawful p) (a : α) : (pure a : Eval α).Obeys G env m :=
  .of_ok rfl (hG.refl env m)

/-- A fault that leaves the machine as it is. -/
theorem stop (hG : G.Lawful p) {x : Eval α} {cause : Cause} {position : Position}
    (hrun : x m = .error (.fault ⟨cause, position⟩) m) (hcause : cause.isRuntime = true)
    (hdepth : cause.isConstructionDepth = false) : x.Obeys G env m :=
  .of_error hrun (hG.refl env m) (hG.fault hcause hdepth)

theorem bind (hG : G.Lawful p) (hm : G.machine m) {x : Eval α} {f : α → Eval β}
    (hx : x.Obeys G env m)
    (hf : ∀ a m₁, x m = .ok a m₁ → G.machine m₁ → (f a).Obeys G env m₁) :
    (x >>= f).Obeys G env m := by
  have hchange := hx.change
  cases hrun : x m with
  | ok a m₁ =>
      rw [final_ok hrun] at hchange
      have hrest := hf a m₁ hrun (hG.machine hchange hm)
      refine ⟨?_, fun h => hrest.halt (by rwa [bind_ok hrun] at h)⟩
      rw [final_bind_ok hrun]
      exact hG.trans hchange hrest.change
  | error reason m₁ =>
      rw [final_error hrun] at hchange
      exact .of_error (bind_error hrun) hchange (hx.halt hrun)

theorem withinCall (hG : G.Lawful p) (hm : G.machine m) (hdepth : m.callDepth < p.maxCallDepth)
    (self : Value) {x : Eval α}
    (hx : G.machine { m with callDepth := m.callDepth + 1 } →
      x.Obeys G (.ofSelf self) { m with callDepth := m.callDepth + 1 }) :
    x.withinCall.Obeys G env m := by
  obtain ⟨hinside, hafter⟩ := hG.call hm hdepth
  refine ⟨?_, fun h => ?_⟩
  · rw [final_withinCall]
    exact hafter (hx hinside).change
  · obtain ⟨m₁, h₁⟩ := withinCall_eq_error h
    exact (hx hinside).halt h₁

theorem withinConstruction (hG : G.Lawful p) (hm : G.machine m) {name : String} {b : Blueprint}
    (hb : p.classes.find? name = some b) (huser : name ∉ ClassName.builtins)
    (hfresh : name ∉ m.constructing) (hdepth : m.constructing.length < p.maxConstructionDepth)
    (self : Value) {x : Eval α}
    (hx : G.machine { m with constructing := name :: m.constructing } →
      x.Obeys G (.ofSelf self) { m with constructing := name :: m.constructing }) :
    (x.withinConstruction name).Obeys G env m := by
  obtain ⟨hinside, hafter⟩ := hG.construction hm hb huser hfresh hdepth
  refine ⟨?_, fun h => ?_⟩
  · rw [final_withinConstruction]
    exact hafter (hx hinside).change
  · obtain ⟨m₁, h₁⟩ := withinConstruction_eq_error h
    exact (hx hinside).halt h₁

/-! ## Operations -/

/-- A computation that goes on with one more local variable. -/
theorem define (hG : G.Lawful p) (hm : G.machine m) (name : String) (v : Value)
    {f : Environment → Eval α}
    (hf : ∀ m₁, G.machine m₁ → (f (env.bind name m.store.cells.size)).Obeys G
      (env.bind name m.store.cells.size) m₁) :
    (Eval.define env name v >>= f).Obeys G env m := by
  have hnew := hf _ (hG.machine (hG.addCell env m v) hm)
  have hrun : (Eval.define env name v >>= f) m =
      f (env.bind name m.store.cells.size) { m with store := m.store.addCell v } := rfl
  refine ⟨?_, fun h => hnew.halt (hrun ▸ h)⟩
  rw [final, hrun]
  exact hG.scope name v hnew.change

theorem bindFormals (hG : G.Lawful p) (formals : List Parameter) {f : Environment → Eval α}
    (hf : ∀ {env m}, G.machine m → (f env).Obeys G env m) :
    ∀ {env m} (values : List Value), G.machine m →
      (Eval.bindFormals env formals values >>= f).Obeys G env m := by
  induction formals with
  | nil => intro env m values hm; exact hf hm
  | cons formal formals ih =>
      intro env m values hm
      cases values with
      | nil => exact hf hm
      | cons v values =>
          rw [Eval.bindFormals, bind_assoc]
          exact hG.define hm formal.name v fun m₁ hm₁ => ih values hm₁

theorem assign (hG : G.Lawful p) (name : String) (v : Value) (position : Position) :
    (Eval.assign env name v position).Obeys G env m := by
  rcases assign_cases env name v position m with
    ⟨place, hplace, hrun⟩ | ⟨place, o, ho, hname, hrun⟩ | hrun
  · exact .of_ok hrun (hG.setCell env m name place v hplace)
  · exact .of_ok hrun (hG.setField env m place o name v ho hname)
  · exact hG.stop hrun rfl rfl

theorem nextLine (hG : G.Lawful p) (hm : G.machine m) (position : Position) :
    (Primitive.nextLine? position).Obeys G env m := by
  refine hG.bind hm (.of_ok rfl (hG.read env m)) fun line m₁ _ _ => ?_
  cases line with
  | text | endOfInput => exact hG.ret _
  | malformed => exact hG.stop rfl rfl rfl

theorem perform (hG : G.Lawful p) (hm : G.machine m) (operation : Primitive) (receiver : Value)
    (arguments : List Value) (position : Position) :
    (operation.perform receiver arguments position).Obeys G env m := by
  obtain ⟨act, hact⟩ := operation.perform_eq receiver arguments position
  refine .of_eq (hact m) ?_
  cases act (receiver.className? m.store) (receiver.render m.store) with
  | value v => exact hG.ret v
  | fault cause hcause =>
      exact hG.stop rfl (Cause.isRuntime_of_isOperational hcause)
        (Cause.isConstructionDepth_of_isOperational hcause)
  | copy => exact .of_ok rfl (hG.copy env m receiver)
  | write text => exact .of_ok rfl (hG.write env m text)
  | read answer => exact hG.bind hm (hG.nextLine hm position) fun line m₁ _ _ => hG.ret _

/-! ## Rules

`hev` speaks of the evaluator of the expressions inside the one at hand. Initial values are
written to an object that is still the one just made, so the rule for `new` also asks that the
evaluator keeps objects. -/

variable {ev : Evaluator} {e : Expr}

theorem bool (hG : G.Lawful p) (hev : ev.Obeys G) (he : G.expr e) (hm : G.machine m) :
    (Eval.bool ev e env).Obeys G env m := by
  refine hG.bind hm (hev he hm) fun v m₁ _ _ => ?_
  cases v with
  | bool b => exact hG.ret b
  | _ => exact hG.stop rfl rfl rfl

theorem int (hG : G.Lawful p) (hev : ev.Obeys G) (he : G.expr e) (hm : G.machine m) :
    (Eval.int ev e env).Obeys G env m := by
  refine hG.bind hm (hev he hm) fun v m₁ _ _ => ?_
  cases v with
  | int n => exact hG.ret n
  | _ => exact hG.stop rfl rfl rfl

theorem receiver (hG : G.Lawful p) (hev : ev.Obeys G) {r : Option Expr}
    (hr : ∀ e ∈ r.toList, G.expr e) (hm : G.machine m) :
    (Eval.receiver ev env r).Obeys G env m := by
  cases r with
  | none => exact hG.ret env.self
  | some e => exact hev (hr e List.mem_cons_self) hm

theorem arguments (hG : G.Lawful p) (hev : ev.Obeys G) (args : List Expr)
    (hargs : ∀ e ∈ args, G.expr e) :
    ∀ {m}, G.machine m → (Eval.arguments ev env args).Obeys G env m := by
  induction args with
  | nil => intro m _; exact hG.ret []
  | cons e args ih =>
      intro m hm
      rw [List.forall_mem_cons] at hargs
      refine hG.bind hm (hev hargs.1 hm) fun v m₁ _ hm₁ => ?_
      exact hG.bind hm₁ (ih hargs.2 hm₁) fun vs m₂ _ _ => hG.ret (v :: vs)

theorem sequence (hG : G.Lawful p) (hev : ev.Obeys G) (body : List Expr)
    (hbody : ∀ e ∈ body, G.expr e) :
    ∀ {m} (last : Value), G.machine m → (Eval.sequence ev env last body).Obeys G env m := by
  induction body with
  | nil => intro m last _; exact hG.ret last
  | cons e body ih =>
      intro m last hm
      rw [List.forall_mem_cons] at hbody
      exact hG.bind hm (hev hbody.1 hm) fun v m₁ _ hm₁ => ih hbody.2 v hm₁

theorem initialValue (hG : G.Lawful p) (hev : ev.Obeys G) {b : Binding}
    (hb : ∀ e ∈ b.init, G.expr e) (hm : G.machine m) :
    (Eval.initialValue ev env b).Obeys G env m := by
  unfold Eval.initialValue
  split
  · rename_i init hinit
    exact hev (hb init hinit) hm
  · exact hG.ret _

/-- A computation that goes on with the variables of a `let`. -/
theorem bindings (hG : G.Lawful p) (hev : ev.Obeys G) (bs : List Binding)
    (hbs : ∀ e ∈ bs.filterMap (·.init), G.expr e) {f : Environment → Eval α}
    (hf : ∀ {env m}, G.machine m → (f env).Obeys G env m) :
    ∀ {env m}, G.machine m → (Eval.bindings ev env bs >>= f).Obeys G env m := by
  induction bs with
  | nil => intro env m hm; exact hf hm
  | cons b bs ih =>
      intro env m hm
      have hinit : ∀ e ∈ b.init, G.expr e := fun e he =>
        hbs e (List.mem_filterMap.mpr ⟨b, List.mem_cons_self, he⟩)
      have hrest : ∀ e ∈ bs.filterMap (·.init), G.expr e := fun e he => by
        obtain ⟨b', hb', he⟩ := List.mem_filterMap.mp he
        exact hbs e (List.mem_filterMap.mpr ⟨b', List.mem_cons_of_mem b hb', he⟩)
      rw [bindings_cons, bind_assoc]
      refine hG.bind hm (hG.initialValue hev hinit hm) fun v m₁ _ hm₁ => ?_
      rw [bind_assoc]
      exact hG.define hm₁ b.name v fun m₂ hm₂ => ih hrest hm₂

theorem repeatWhile (hG : G.Lawful p) {condition : Eval Bool} {body : Eval Value}
    (hc : ∀ {m}, G.machine m → condition.Obeys G env m)
    (hb : ∀ {m}, G.machine m → body.Obeys G env m) (rounds : Nat) :
    ∀ {m}, G.machine m → (Eval.repeatWhile condition body rounds).Obeys G env m := by
  induction rounds with
  | zero => intro m _; exact .of_error rfl (hG.refl env m) hG.outOfFuel
  | succ rounds ih =>
      intro m hm
      refine hG.bind hm (hc hm) fun again m₁ _ hm₁ => ?_
      cases again with
      | true => exact hG.bind hm₁ (hb hm₁) fun _ m₂ _ hm₂ => ih hm₂
      | false => exact hG.ret Value.void

/-! ## Constructions -/

/-- The object under construction is the one at `place`, so that its slots exist. -/
theorem fillSlot (hG : G.Lawful p) (hev : ev.Obeys G) (hobj : ev.Keeps Machine.KeepsObjects)
    {b : Blueprint} {slot : Attribute} (hslot : b.hasAttribute slot.name = true)
    (hinit : ∀ e, slot.init = some e → G.expr e) {place : Nat}
    (hplace : ∃ o, m.store.object? place = some o ∧ o.blueprint = b) (hm : G.machine m) :
    (Eval.fillSlot ev place slot).Obeys G (.ofSelf (.object place)) m := by
  unfold Eval.fillSlot
  split
  · exact hG.ret ()
  · rename_i init hsome
    refine hG.bind hm (hev (hinit init hsome) hm) fun v m₁ hrun _ => ?_
    obtain ⟨o, ho, rfl⟩ := hplace
    obtain ⟨o₁, ho₁, hb₁⟩ := hobj init (.ofSelf (.object place)) m place o ho
    rw [final_ok hrun] at ho₁
    exact .of_ok rfl (hG.setField _ m₁ place o₁ slot.name v ho₁ (hb₁ ▸ hslot))

theorem runInitializers (hG : G.Lawful p) (hev : ev.Obeys G)
    (hobj : ev.Keeps Machine.KeepsObjects) (b : Blueprint) (place : Nat) (slots : List Attribute)
    (hslots : ∀ slot ∈ slots, b.hasAttribute slot.name = true ∧
      ∀ e, slot.init = some e → G.expr e) :
    ∀ {m}, (∃ o, m.store.object? place = some o ∧ o.blueprint = b) → G.machine m →
      (Eval.runInitializers ev place slots).Obeys G (.ofSelf (.object place)) m := by
  induction slots with
  | nil => intro m _ _; exact hG.ret ()
  | cons slot slots ih =>
      intro m hplace hm
      rw [List.forall_mem_cons] at hslots
      obtain ⟨⟨hslot, hinit⟩, hrest⟩ := hslots
      rw [runInitializers_cons]
      refine hG.bind hm (hG.fillSlot hev hobj hslot hinit hplace hm) fun _ m₁ hrun hm₁ => ?_
      exact ih hrest (object?_of_fillSlot hobj hplace hrun) hm₁

theorem construct (hG : G.Lawful p) (hev : ev.Obeys G) (hobj : ev.Keeps Machine.KeepsObjects)
    {className : String} (hclass : G.makes className) (huser : className ∉ ClassName.builtins)
    (position : Position) (hm : G.machine m) :
    (Eval.construct p ev className position).Obeys G env m := by
  rcases guardConstruction_cases p className position m with
    hguard | ⟨hfresh, hdepth, hguard⟩ | ⟨hfresh, hdepth, hguard⟩
  · exact hG.stop (bind_error hguard) rfl rfl
  · exact .of_error (bind_error hguard) (hG.refl env m)
      (hG.exceeded hm hclass huser hfresh hdepth)
  · refine .of_eq (bind_ok hguard) ?_
    cases hb : p.classes.find? className with
    | none => exact hG.stop (bind_error (blueprint_of_none hb position m)) rfl rfl
    | some b =>
        refine .of_eq (bind_ok (blueprint_of_some hb position m)) ?_
        refine hG.bind hm (.of_ok rfl (hG.create env m className b hb)) fun place m₁ h₁ hm₁ => ?_
        cases h₁
        refine hG.bind hm₁ ?_ fun _ m₂ _ _ => hG.ret _
        refine hG.withinConstruction hm₁ hb huser hfresh hdepth (.object m.store.objects.size)
          fun hm₂ => ?_
        refine hG.runInitializers hev hobj b _ b.layout (fun slot hslot => ?_)
          ⟨.ofBlueprint b, Store.object?_addObject_size _ _, rfl⟩ hm₂
        exact ⟨Blueprint.hasAttribute_of_mem hslot, fun e he => hG.holds (.init hb hslot he)⟩

theorem instantiate (hG : G.Lawful p) (hev : ev.Obeys G) (hobj : ev.Keeps Machine.KeepsObjects)
    {className : String} (hclass : G.makes className) (position : Position) (hm : G.machine m) :
    (Eval.instantiate p ev className position).Obeys G env m := by
  unfold Eval.instantiate
  by_cases hfinal : ClassName.finals.contains className = true
  · rw [if_pos hfinal]
    exact hG.ret _
  · by_cases hobject : className = ClassName.object
    · rw [if_neg hfinal, if_pos hobject]
      exact hG.ret _
    · by_cases hio : className = ClassName.io
      · rw [if_neg hfinal, if_neg hobject, if_pos hio]
        exact hG.ret _
      · rw [if_neg hfinal, if_neg hobject, if_neg hio]
        have huser : className ∉ ClassName.builtins := by
          simp only [ClassName.finals, List.contains_iff_mem] at hfinal
          simp [ClassName.builtins, hobject, hio] at hfinal ⊢
          exact hfinal
        exact hG.construct hev hobj hclass huser position hm

/-! ## Calls -/

theorem invoke (hG : G.Lawful p) (hev : ev.Obeys G) (receiver : Value) {found : Method}
    (hbody : G.expr found.body) (values : List Value) (position : Position) (hm : G.machine m) :
    (Eval.invoke p ev receiver found values position).Obeys G env m := by
  cases hprim : found.primitive? with
  | some operation =>
      rw [Eval.invoke, hprim]
      exact hG.perform hm operation receiver values position
  | none =>
      rcases invoke_cases p ev receiver values position m hprim with hrun | ⟨hdepth, hrun⟩
      · exact hG.stop hrun rfl rfl
      · refine .of_eq hrun (hG.withinCall hm hdepth receiver fun hm₁ => ?_)
        exact hG.bindFormals found.formals (fun hm => hev hbody hm) values hm₁

theorem dispatch (hG : G.Lawful p) (hev : ev.Obeys G) (receiver : Value)
    (qualifier : Option String) (method : String) (values : List Value) (position : Position)
    (hm : G.machine m) :
    (Eval.dispatch p ev receiver qualifier method values position).Obeys G env m := by
  cases hc : receiver.className? m.store with
  | none => exact hG.stop (dispatch_void hc) rfl rfl
  | some className =>
      cases hb : p.classes.find? (qualifier.getD className) with
      | none => exact hG.stop (dispatch_unknown hc hb) rfl rfl
      | some b =>
          cases hfound : b.findMethod? method values.length with
          | none => exact hG.stop (dispatch_undefined hc hb hfound) rfl rfl
          | some found =>
              refine .of_eq (dispatch_found hc hb hfound) ?_
              exact hG.invoke hev receiver (hG.holds (.body hb hfound)) values position hm

theorem name (hG : G.Lawful p) (hev : ev.Obeys G) (x : String) (position : Position)
    (hm : G.machine m) : (Eval.name p ev x env position).Obeys G env m := by
  rcases name_cases p ev x env position m with ⟨v, hrun⟩ | hrun
  · exact .of_ok hrun (hG.refl env m)
  · exact .of_eq hrun (hG.dispatch hev env.self none x [] position hm)

/-! ## Kinds of expressions -/

theorem branch (hG : G.Lawful p) (hev : ev.Obeys G) (v : Value) {branches : List Branch}
    (hbranches : ∀ e ∈ branches.map (·.body), G.expr e) (position : Position)
    (hm : G.machine m) : (Eval.branch p ev v branches env position).Obeys G env m := by
  cases hc : v.className? m.store with
  | none => exact hG.stop (branch_void hc branches env) rfl rfl
  | some className =>
      cases hb : p.classes.find? className with
      | none => exact hG.stop (branch_unknown hc hb branches env) rfl rfl
      | some b =>
          cases hbranch : closestBranch? b branches with
          | none => exact hG.stop (branch_unmatched hc hb hbranch env) rfl rfl
          | some found =>
              have hbody : G.expr found.2.body := hbranches _
                (List.mem_map.mpr ⟨found.2, (closestBranch?_eq_some hbranch).1, rfl⟩)
              refine .of_eq (branch_matched hc hb hbranch env) ?_
              exact hG.define hm found.2.name v fun m₁ hm₁ => hev hbody hm₁

theorem arithmetic (hG : G.Lawful p) (op : BinaryOp) (a b : Int64) (position : Position) :
    (Eval.arithmetic op a b position).Obeys G env m := by
  unfold Eval.arithmetic
  cases op with
  | divide =>
      dsimp only
      split
      · exact hG.stop rfl rfl rfl
      · exact hG.ret _
  | _ => exact hG.ret _

theorem binary (hG : G.Lawful p) (hev : ev.Obeys G) (op : BinaryOp) {left right : Expr}
    (hleft : G.expr left) (hright : G.expr right) (position : Position) (hm : G.machine m) :
    (Eval.binary ev op left right env position).Obeys G env m := by
  unfold Eval.binary
  split
  · refine hG.bind hm (hev hleft hm) fun a m₁ _ hm₁ => ?_
    exact hG.bind hm₁ (hev hright hm₁) fun b m₂ _ _ => hG.ret _
  · refine hG.bind hm (hG.int hev hleft hm) fun a m₁ _ hm₁ => ?_
    exact hG.bind hm₁ (hG.int hev hright hm₁) fun b m₂ _ _ => hG.arithmetic op a b position

/-- `new` goes on with a class that objects may be asked of. -/
theorem newClass (hG : G.Lawful p) {typeName : String}
    (hclass : typeName ≠ ClassName.selfType → G.makes typeName) (position : Position)
    (hm : G.machine m) {f : String → Eval α} (hf : ∀ {className}, G.makes className → (f className).Obeys G env m) :
    (Eval.newClass typeName env position >>= f).Obeys G env m := by
  by_cases hself : typeName = ClassName.selfType
  · cases hc : env.self.className? m.store with
    | none => exact hG.stop (bind_error (newClass_of_none hself hc position)) rfl rfl
    | some className =>
        exact .of_eq (bind_ok (newClass_of_some hself hc position)) (hf (hG.self hm hc))
  · rw [Eval.newClass, if_neg hself]
    exact hf (hclass hself)

/-! ## Evaluation -/

/-- One more level of nesting keeps to the regime if the levels below do. -/
theorem step (hG : G.Lawful p) (hev : ev.Obeys G) (hobj : ev.Keeps Machine.KeepsObjects)
    (rounds : Nat) : Evaluator.Obeys (Eval.step p ev rounds) G := by
  intro e env m he hm
  have hchild : ∀ e' ∈ e.children, G.expr e' := fun e' he' => hG.children he he'
  cases e with
  | int | str | bool | self => exact hG.ret _
  | name x span => exact hG.name hev x span.start hm
  | assign x value span =>
      refine hG.bind hm (hev (hchild value (by simp [Expr.children])) hm) fun v m₁ _ hm₁ => ?_
      exact hG.bind hm₁ (hG.assign x v span.start) fun _ m₂ _ _ => hG.ret v
  | dispatch r qualifier method args span =>
      rw [Expr.children, List.forall_mem_append] at hchild
      rw [step_dispatch]
      refine hG.bind hm (hG.receiver hev hchild.1 hm) fun self m₁ _ hm₁ => ?_
      refine hG.bind hm₁ (hG.arguments hev args hchild.2 hm₁) fun values m₂ _ hm₂ => ?_
      exact hG.dispatch hev self qualifier method values span.start hm₂
  | new typeName span =>
      exact hG.newClass (hG.new he) span.start hm fun hclass =>
        hG.instantiate hev hobj hclass span.start hm
  | cond c t f span =>
      refine hG.bind hm (hG.bool hev (hchild c (by simp [Expr.children])) hm) fun b m₁ _ hm₁ => ?_
      cases b with
      | true => exact hev (hchild t (by simp [Expr.children])) hm₁
      | false => exact hev (hchild f (by simp [Expr.children])) hm₁
  | loop c body span =>
      exact hG.repeatWhile (hG.bool hev (hchild c (by simp [Expr.children])))
        (hev (hchild body (by simp [Expr.children]))) rounds hm
  | block body span => exact hG.sequence hev body hchild .void hm
  | letIn bs body span =>
      rw [Expr.children, List.forall_mem_append] at hchild
      exact hG.bindings hev bs hchild.1 (fun hm => hev (hchild.2 body List.mem_cons_self) hm) hm
  | caseOf scrutinee branches span =>
      rw [Expr.children, List.forall_mem_cons] at hchild
      refine hG.bind hm (hev hchild.1 hm) fun v m₁ _ hm₁ => ?_
      exact hG.branch hev v hchild.2 span.start hm₁
  | isVoid operand span =>
      exact hG.bind hm (hev (hchild operand (by simp [Expr.children])) hm) fun v m₁ _ _ => hG.ret _
  | unary op operand span =>
      have hoperand := hchild operand (by simp [Expr.children])
      cases op with
      | negate => exact hG.bind hm (hG.int hev hoperand hm) fun n m₁ _ _ => hG.ret _
      | not => exact hG.bind hm (hG.bool hev hoperand hm) fun b m₁ _ _ => hG.ret _
  | binary op left right span =>
      exact hG.binary hev op (hchild left (by simp [Expr.children]))
        (hchild right (by simp [Expr.children])) span.start hm
  | primitive operation span => exact hG.stop rfl rfl rfl

end Regime.Lawful

/-! ## Relations between machines -/

/-- A relation between an earlier and a later machine that every operation respects. -/
structure Conserved (p : Program) (R : Machine → Machine → Prop) : Prop where
  refl : ∀ m, R m m
  trans : ∀ {m₁ m₂ m₃}, R m₁ m₂ → R m₂ m₃ → R m₁ m₃
  write : ∀ m text, R m { m with output := m.output ++ text }
  read : ∀ m, R m { m with input := m.input.readLine.2 }
  create : ∀ m name b, p.classes.find? name = some b →
    R m { m with store := m.store.addObject (.ofBlueprint b) }
  copy : ∀ m v, R m { m with store := (Value.copy m.store v).2 }
  addCell : ∀ m v, R m { m with store := m.store.addCell v }
  setCell : ∀ m place v, R m { m with store := m.store.setCell place v }
  /-- Only attributes that the object has are assigned. -/
  setField : ∀ m place o name v, m.store.object? place = some o →
    o.blueprint.hasAttribute name = true →
    R m { m with store := m.store.setField place name v }
  call : ∀ {m m'}, R { m with callDepth := m.callDepth + 1 } m' →
    R m { m' with callDepth := m'.callDepth - 1 }
  construction : ∀ {m m'} name, R { m with constructing := name :: m.constructing } m' →
    R m { m' with constructing := m'.constructing.tail }

/-- The regime that asks for the relation and for nothing else. -/
def Regime.ofRelation (R : Machine → Machine → Prop) : Regime where
  machine _ := True
  change _ := R
  expr _ := True
  makes _ := True
  halt _ := True

theorem Conserved.lawful {R : Machine → Machine → Prop} (hR : Conserved p R) :
    (Regime.ofRelation R).Lawful p where
  refl _ := hR.refl
  trans := hR.trans
  machine _ _ := trivial
  write _ := hR.write
  read _ := hR.read
  create _ := hR.create
  copy _ := hR.copy
  addCell _ := hR.addCell
  setCell _ m _ place v _ := hR.setCell m place v
  setField _ := hR.setField
  scope _ v hm := hR.trans (hR.addCell _ v) hm
  call _ _ := ⟨trivial, hR.call⟩
  construction _ _ _ _ _ := ⟨trivial, hR.construction _⟩
  children _ _ := trivial
  holds _ := trivial
  new _ _ := trivial
  self _ _ := trivial
  outOfFuel := trivial
  fault _ _ := trivial
  exceeded _ _ _ _ _ := trivial

theorem Machine.conserved_keepsObjects (p : Program) : Conserved p KeepsObjects where
  refl m := .refl m.store
  trans h₁ h₂ := h₁.trans h₂
  write m _ := .refl m.store
  read m := .refl m.store
  create m _ b _ := m.store.keeps_addObject (.ofBlueprint b)
  copy m v := m.store.keeps_copy v
  addCell m v := m.store.keeps_addCell v
  setCell m place v := m.store.keeps_setCell place v
  setField m place _ name v _ _ := m.store.keeps_setField place name v
  call h := h
  construction _ h := h

/-! ## Invariants of machines -/

/-- A property of machines that every operation preserves, and that nested calls and constructions
begin and end with. -/
structure Invariant (p : Program) (I : Machine → Prop) : Prop where
  write : ∀ {m} text, I m → I { m with output := m.output ++ text }
  read : ∀ {m}, I m → I { m with input := m.input.readLine.2 }
  create : ∀ {m name b}, p.classes.find? name = some b → I m →
    I { m with store := m.store.addObject (.ofBlueprint b) }
  copy : ∀ {m} v, I m → I { m with store := (Value.copy m.store v).2 }
  addCell : ∀ {m} v, I m → I { m with store := m.store.addCell v }
  setCell : ∀ {m} place v, I m → I { m with store := m.store.setCell place v }
  setField : ∀ {m place o name} v, m.store.object? place = some o →
    o.blueprint.hasAttribute name = true → I m →
    I { m with store := m.store.setField place name v }
  call : ∀ {m}, m.callDepth < p.maxCallDepth → I m →
    I { m with callDepth := m.callDepth + 1 }
  callEnd : ∀ {m}, I m → I { m with callDepth := m.callDepth - 1 }
  construction : ∀ {m name b}, p.classes.find? name = some b → name ∉ ClassName.builtins →
    name ∉ m.constructing → m.constructing.length < p.maxConstructionDepth → I m →
    I { m with constructing := name :: m.constructing }
  constructionEnd : ∀ {m}, I m → I { m with constructing := m.constructing.tail }

theorem Invariant.and {I J : Machine → Prop} (hI : Invariant p I) (hJ : Invariant p J) :
    Invariant p fun m => I m ∧ J m where
  write text := .imp (hI.write text) (hJ.write text)
  read := .imp hI.read hJ.read
  create hb := .imp (hI.create hb) (hJ.create hb)
  copy v := .imp (hI.copy v) (hJ.copy v)
  addCell v := .imp (hI.addCell v) (hJ.addCell v)
  setCell place v := .imp (hI.setCell place v) (hJ.setCell place v)
  setField v ho hname := .imp (hI.setField v ho hname) (hJ.setField v ho hname)
  call hdepth := .imp (hI.call hdepth) (hJ.call hdepth)
  callEnd := .imp hI.callEnd hJ.callEnd
  construction hb huser hfresh hdepth :=
    .imp (hI.construction hb huser hfresh hdepth) (hJ.construction hb huser hfresh hdepth)
  constructionEnd := .imp hI.constructionEnd hJ.constructionEnd

/-- The regime that asks for the invariant, and for evaluation to stop for a cause of its own. -/
def Regime.ofInvariant (I : Machine → Prop) : Regime where
  machine := I
  change _ m m' := I m → I m'
  expr _ := True
  makes _ := True
  halt := Halt.IsRuntime

theorem Invariant.lawful {I : Machine → Prop} (hI : Invariant p I) :
    (Regime.ofInvariant I).Lawful p where
  refl _ _ := id
  trans h₁ h₂ := h₂ ∘ h₁
  machine h := h
  write _ _ text := hI.write text
  read _ _ := hI.read
  create _ _ _ _ hb := hI.create hb
  copy _ _ v := hI.copy v
  addCell _ _ v := hI.addCell v
  setCell _ _ _ place v _ := hI.setCell place v
  setField _ _ _ _ _ v ho hname := hI.setField v ho hname
  scope _ v h hm := h (hI.addCell v hm)
  call hm hdepth := ⟨hI.call hdepth hm, fun h hm => hI.callEnd (h (hI.call hdepth hm))⟩
  construction hm hb huser hfresh hdepth :=
    ⟨hI.construction hb huser hfresh hdepth hm,
      fun h hm => hI.constructionEnd (h (hI.construction hb huser hfresh hdepth hm))⟩
  children _ _ := trivial
  holds _ := trivial
  new _ _ := trivial
  self _ _ := trivial
  outOfFuel := trivial
  fault hcause _ := hcause
  exceeded _ _ _ _ _ := rfl

/-! ## Evaluation -/

/-- **Objects last.** An object never disappears and never changes its class. -/
theorem Machine.keepsObjects_eval (p : Program) (fuel : Nat) :
    Evaluator.Keeps (eval p fuel) KeepsObjects := by
  induction fuel with
  | zero => intro e env m; exact (conserved_keepsObjects p).refl m
  | succ fuel ih =>
      intro e env m
      have hev : (eval p fuel).Obeys (.ofRelation KeepsObjects) := fun {e env m} _ _ =>
        ⟨ih e env m, fun _ => trivial⟩
      exact ((conserved_keepsObjects p).lawful.step hev ih fuel trivial trivial).change

/-- **Regimes are kept to.** What the operations keep to, evaluation keeps to. -/
theorem Regime.Lawful.eval (hG : G.Lawful p) (fuel : Nat) : (CoolLang.eval p fuel).Obeys G := by
  induction fuel with
  | zero => intro e env m _ _; exact .of_error rfl (hG.refl env m) hG.outOfFuel
  | succ fuel ih => exact hG.step ih (Machine.keepsObjects_eval p fuel) fuel

/-- A run keeps to the regime if it may ask for an object of the main class. -/
theorem Regime.Lawful.program (hG : G.Lawful p) (hmain : G.makes ClassName.mainClass)
    (hm : G.machine m) (fuel : Nat) : (Eval.program p fuel).Obeys G env m := by
  refine hG.bind hm ?_ fun object m₁ _ hm₁ => ?_
  · exact hG.instantiate (hG.eval fuel) (Machine.keepsObjects_eval p fuel) hmain .nowhere hm
  · exact hG.dispatch (hG.eval fuel) object none mainMethod [] .nowhere hm₁

end CoolLang
