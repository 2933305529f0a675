import CoolLang.Evaluation.Expression

/-!
# Outcomes of evaluation

How the outcome of a computation follows from those of its parts, and the rules of evaluation in a
form where every part is one computation: the receiver of a call and the initial value of a binding
get names of their own.
-/

namespace CoolLang

namespace Eval

variable {α β : Type}

/-- The machine that a computation leaves, with a value or without one. -/
def final (x : Eval α) (m : Machine) : Machine :=
  match x m with
  | .ok _ m' => m'
  | .error _ m' => m'

/-! ## Sequences -/

theorem final_ok {x : Eval α} {m m' : Machine} {a : α}
    (h : x m = .ok a m') : x.final m = m' := by
  rw [final, h]

theorem final_error {x : Eval α} {m m' : Machine} {halt : Halt}
    (h : x m = .error halt m') : x.final m = m' := by
  rw [final, h]

theorem bind_ok {x : Eval α} {f : α → Eval β} {m m' : Machine} {a : α}
    (h : x m = .ok a m') : (x >>= f) m = f a m' := by
  show EStateM.bind x f m = _
  simp only [EStateM.bind, h]

theorem bind_error {x : Eval α} {f : α → Eval β} {m m' : Machine} {halt : Halt}
    (h : x m = .error halt m') : (x >>= f) m = .error halt m' := by
  show EStateM.bind x f m = _
  simp only [EStateM.bind, h]

theorem final_bind_ok {x : Eval α} {f : α → Eval β} {m m' : Machine} {a : α}
    (h : x m = .ok a m') : (x >>= f).final m = (f a).final m' := by
  rw [final, bind_ok h, final]

/-- A sequence that yields a value passed through a value of its first part. -/
theorem bind_eq_ok {x : Eval α} {f : α → Eval β} {m m' : Machine} {b : β}
    (h : (x >>= f) m = .ok b m') :
    ∃ a m₁, x m = .ok a m₁ ∧ f a m₁ = .ok b m' := by
  cases hx : x m with
  | ok a m₁ =>
      rw [bind_ok hx] at h
      exact ⟨a, m₁, rfl, h⟩
  | error halt m₁ =>
      rw [bind_error hx] at h
      cases h

/-- A sequence halts in its first part, or after it. -/
theorem bind_eq_error {x : Eval α} {f : α → Eval β} {m m' : Machine} {halt : Halt}
    (h : (x >>= f) m = .error halt m') :
    x m = .error halt m' ∨ ∃ a m₁, x m = .ok a m₁ ∧ f a m₁ = .error halt m' := by
  cases hx : x m with
  | ok a m₁ =>
      rw [bind_ok hx] at h
      exact Or.inr ⟨a, m₁, rfl, h⟩
  | error halt' m₁ =>
      rw [bind_error hx] at h
      cases h
      exact Or.inl rfl

/-- Sequences whose parts do the same do the same. -/
theorem bind_eq_bind {x x' : Eval α} {f f' : α → Eval β} {m : Machine} (hx : x' m = x m)
    (hf : ∀ a m₁, x m = .ok a m₁ → f' a m₁ = f a m₁) : (x' >>= f') m = (x >>= f) m := by
  cases hrun : x m with
  | ok a m₁ =>
      rw [bind_ok hrun, bind_ok (hx.trans hrun)]
      exact hf a m₁ hrun
  | error halt m₁ => rw [bind_error hrun, bind_error (hx.trans hrun)]

/-! ## Rules with one computation for each part -/

/-- The receiver of a call, which is `self` where none is written. -/
def receiver (eval : Evaluator) (env : Environment) : Option Expr → Eval Value
  | some e => eval e env
  | none => pure env.self

/-- The value that a variable of a `let` starts from. -/
def initialValue (eval : Evaluator) (env : Environment) (b : Binding) : Eval Value :=
  match b.init with
  | some init => eval init env
  | none => pure (.defaultFor b.typeName)

/-- Gives an attribute of a new object its initial value, if one is written. -/
def fillSlot (eval : Evaluator) (place : Nat) (slot : Attribute) : Eval Unit :=
  match slot.init with
  | none => pure ()
  | some init => do
    let value ← eval init (.ofSelf (.object place))
    setField place slot.name value

theorem step_dispatch (p : Program) (eval : Evaluator) (rounds : Nat) (r : Option Expr)
    (qualifier : Option String) (method : String) (args : List Expr) (span : Span)
    (env : Environment) :
    step p eval rounds (.dispatch r qualifier method args span) env =
      (do
        let self ← receiver eval env r
        let values ← arguments eval env args
        dispatch p eval self qualifier method values span.start) := by
  cases r <;> rfl

theorem bindings_cons (eval : Evaluator) (env : Environment) (b : Binding) (bs : List Binding) :
    bindings eval env (b :: bs) =
      (do
        let v ← initialValue eval env b
        let env ← define env b.name v
        bindings eval env bs) := by
  rw [bindings, initialValue]
  cases b.init <;> rfl

theorem bindings_append (ev : Evaluator) (pre bs : List Binding) : ∀ env : Environment,
    bindings ev env (pre ++ bs) = (bindings ev env pre >>= fun env => bindings ev env bs) := by
  induction pre with
  | nil => intro env; rfl
  | cons b pre ih =>
      intro env
      rw [List.cons_append, bindings_cons, bindings_cons, bind_assoc]
      refine congrArg _ (funext fun v => ?_)
      rw [bind_assoc]
      exact congrArg _ (funext ih)

theorem runInitializers_cons (eval : Evaluator) (place : Nat) (slot : Attribute)
    (slots : List Attribute) :
    runInitializers eval place (slot :: slots) =
      (do
        fillSlot eval place slot
        runInitializers eval place slots) := by
  rw [runInitializers, fillSlot]
  cases slot.init with
  | none => rfl
  | some init => exact (bind_assoc _ _ _).symm

/-! ## Look-ups and guards

They leave the machine as it is. -/

theorem blueprint_of_some {p : Program} {name : String} {b : Blueprint}
    (h : p.classes.find? name = some b) (position : Position) (m : Machine) :
    blueprint p name position m = .ok b m := by
  rw [blueprint, h]
  rfl

theorem blueprint_of_none {p : Program} {name : String}
    (h : p.classes.find? name = none) (position : Position) (m : Machine) :
    blueprint p name position m =
      .error (.fault ⟨.internal s!"unknown class {name}", position⟩) m := by
  rw [blueprint, h]
  rfl

theorem blueprint_eq_ok {p : Program} {name : String} {position : Position} {b : Blueprint}
    {m m' : Machine} (h : blueprint p name position m = .ok b m') :
    p.classes.find? name = some b ∧ m' = m := by
  cases hfind : p.classes.find? name with
  | some b' =>
      rw [blueprint_of_some hfind] at h
      cases h
      exact ⟨rfl, rfl⟩
  | none =>
      rw [blueprint_of_none hfind] at h
      cases h

@[simp] theorem final_blueprint (p : Program) (name : String) (position : Position)
    (m : Machine) : (blueprint p name position).final m = m := by
  cases hfind : p.classes.find? name with
  | some b => exact final_ok (blueprint_of_some hfind position m)
  | none => exact final_error (blueprint_of_none hfind position m)

theorem guardCall_eq_ok {p : Program} {position : Position} {u : Unit} {m m' : Machine}
    (h : guardCall p position m = .ok u m') : m' = m ∧ m.callDepth < p.maxCallDepth := by
  unfold guardCall at h
  split at h
  · cases h
  · rename_i hdepth
    cases h
    exact ⟨rfl, Nat.lt_of_not_le hdepth⟩

@[simp] theorem final_guardCall (p : Program) (position : Position) (m : Machine) :
    (guardCall p position).final m = m := by
  unfold final guardCall
  by_cases h : p.maxCallDepth ≤ m.callDepth
  · simp [h, fault]
  · simp [h]

theorem guardConstruction_eq_ok {p : Program} {className : String} {position : Position}
    {u : Unit} {m m' : Machine} (h : guardConstruction p className position m = .ok u m') :
    m' = m ∧ className ∉ m.constructing ∧ m.constructing.length < p.maxConstructionDepth := by
  unfold guardConstruction at h
  split at h
  · cases h
  · rename_i hfresh
    split at h
    · cases h
    · rename_i hdepth
      cases h
      exact ⟨rfl, by simpa using hfresh, Nat.lt_of_not_le hdepth⟩

/-- The three outcomes of the guard of a construction. -/
theorem guardConstruction_cases (p : Program) (className : String) (position : Position)
    (m : Machine) :
    guardConstruction p className position m =
        .error (.fault ⟨.circularInitialization className, position⟩) m ∨
    (className ∉ m.constructing ∧ p.maxConstructionDepth ≤ m.constructing.length ∧
      guardConstruction p className position m =
        .error (.fault ⟨.constructionDepthExceeded p.maxConstructionDepth, position⟩) m) ∨
    className ∉ m.constructing ∧ m.constructing.length < p.maxConstructionDepth ∧
      guardConstruction p className position m = .ok () m := by
  by_cases hfresh : m.constructing.contains className = true
  · left
    rw [guardConstruction, if_pos hfresh]
    rfl
  · have hnew : className ∉ m.constructing := by simpa using hfresh
    right
    by_cases hdepth : p.maxConstructionDepth ≤ m.constructing.length
    · refine Or.inl ⟨hnew, hdepth, ?_⟩
      rw [guardConstruction, if_neg hfresh, if_pos hdepth]
      rfl
    · refine Or.inr ⟨hnew, Nat.lt_of_not_le hdepth, ?_⟩
      rw [guardConstruction, if_neg hfresh, if_neg hdepth]

@[simp] theorem final_guardConstruction (p : Program) (className : String)
    (position : Position) (m : Machine) :
    (guardConstruction p className position).final m = m := by
  unfold final guardConstruction
  by_cases h : m.constructing.contains className
  · simp only [h, if_true, fault]
  · by_cases h' : p.maxConstructionDepth ≤ m.constructing.length
    · simp only [h, h', if_true, fault]; rfl
    · simp only [h, h', if_false]; rfl

/-! ## Nested computations -/

section

variable {x : Eval α} {m m' : Machine} {a : α} {halt : Halt} {name : String}

theorem withinCall_ok (h : x { m with callDepth := m.callDepth + 1 } = .ok a m') :
    x.withinCall m = .ok a { m' with callDepth := m'.callDepth - 1 } := by
  rw [withinCall, h]

theorem withinCall_error (h : x { m with callDepth := m.callDepth + 1 } = .error halt m') :
    x.withinCall m = .error halt { m' with callDepth := m'.callDepth - 1 } := by
  rw [withinCall, h]

/-- A call halts for the reason that its body halts for. -/
theorem withinCall_eq_error (h : x.withinCall m = .error halt m') :
    ∃ m₁, x { m with callDepth := m.callDepth + 1 } = .error halt m₁ := by
  cases hrun : x { m with callDepth := m.callDepth + 1 } with
  | ok a m₁ =>
      rw [withinCall_ok hrun] at h
      cases h
  | error halt' m₁ =>
      rw [withinCall_error hrun] at h
      cases h
      exact ⟨m₁, rfl⟩

theorem withinCall_eq {x' : Eval α}
    (h : x' { m with callDepth := m.callDepth + 1 } = x { m with callDepth := m.callDepth + 1 }) :
    x'.withinCall m = x.withinCall m := by
  rw [withinCall, withinCall, h]

theorem final_withinCall (x : Eval α) (m : Machine) :
    x.withinCall.final m =
      { x.final { m with callDepth := m.callDepth + 1 } with
        callDepth := (x.final { m with callDepth := m.callDepth + 1 }).callDepth - 1 } := by
  unfold final withinCall
  cases x { m with callDepth := m.callDepth + 1 } <;> rfl

theorem withinConstruction_ok
    (h : x { m with constructing := name :: m.constructing } = .ok a m') :
    x.withinConstruction name m = .ok a { m' with constructing := m'.constructing.tail } := by
  rw [withinConstruction, h]

theorem withinConstruction_error
    (h : x { m with constructing := name :: m.constructing } = .error halt m') :
    x.withinConstruction name m =
      .error halt { m' with constructing := m'.constructing.tail } := by
  rw [withinConstruction, h]

theorem withinConstruction_eq_error (h : x.withinConstruction name m = .error halt m') :
    ∃ m₁, x { m with constructing := name :: m.constructing } = .error halt m₁ := by
  cases hrun : x { m with constructing := name :: m.constructing } with
  | ok a m₁ =>
      rw [withinConstruction_ok hrun] at h
      cases h
  | error halt' m₁ =>
      rw [withinConstruction_error hrun] at h
      cases h
      exact ⟨m₁, rfl⟩

theorem withinConstruction_eq {x' : Eval α}
    (h : x' { m with constructing := name :: m.constructing } =
      x { m with constructing := name :: m.constructing }) :
    x'.withinConstruction name m = x.withinConstruction name m := by
  rw [withinConstruction, withinConstruction, h]

theorem final_withinConstruction (x : Eval α) (name : String) (m : Machine) :
    (x.withinConstruction name).final m =
      { x.final { m with constructing := name :: m.constructing } with
        constructing :=
          (x.final { m with constructing := name :: m.constructing }).constructing.tail } := by
  unfold final withinConstruction
  cases x { m with constructing := name :: m.constructing } <;> rfl

end

/-- An assignment goes to the cell of a local variable or to an attribute that `self` has, or is a
fault. -/
theorem assign_cases (env : Environment) (name : String) (v : Value) (position : Position)
    (m : Machine) :
    (∃ place, env.place? name = some place ∧ assign env name v position m =
      .ok () { m with store := m.store.setCell place v }) ∨
    (∃ place o, m.store.object? place = some o ∧ o.blueprint.hasAttribute name = true ∧
      assign env name v position m =
        .ok () { m with store := m.store.setField place name v }) ∨
    assign env name v position m =
      .error (.fault ⟨.internal s!"assignment to unknown name {name}", position⟩) m := by
  cases hplace : env.place? name with
  | some place => exact Or.inl ⟨place, rfl, by rw [assign, hplace]⟩
  | none =>
      cases hself : env.self with
      | object place =>
          by_cases hattr : (m.store.object? place).any (·.blueprint.hasAttribute name) = true
          · obtain ⟨o, ho, hname⟩ := (Option.any_eq_true _ _).mp hattr
            refine Or.inr (Or.inl ⟨place, o, ho, hname, ?_⟩)
            simp only [assign, hplace, hself, if_pos hattr]
            rfl
          · right; right
            simp only [assign, hplace, hself, if_neg hattr]
            rfl
      | _ =>
          right; right
          simp only [assign, hplace, hself]
          rfl

/-! ## Calls, names, constructions and branches, once their look-ups are done -/

/-- Calls a method that was found. -/
def invoke (p : Program) (eval : Evaluator) (receiver : Value) (found : Method)
    (arguments : List Value) (position : Position) : Eval Value :=
  match found.primitive? with
  | some operation => operation.perform receiver arguments position
  | none => do
    guardCall p position
    withinCall do
      let env ← bindFormals (.ofSelf receiver) found.formals arguments
      eval found.body env

section

variable {p : Program} {eval : Evaluator} {receiver : Value} {qualifier : Option String}
  {method className : String} {arguments : List Value} {position : Position} {b : Blueprint}
  {found : Method} {m : Machine}

theorem dispatch_void (hc : receiver.className? m.store = none) :
    dispatch p eval receiver qualifier method arguments position m =
      .error (.fault ⟨.dispatchOnVoid method, position⟩) m := by
  have hname : Eval.className? receiver m = .ok none m := by rw [Eval.className?, hc]
  rw [dispatch, bind_ok hname]
  rfl

theorem dispatch_unknown (hc : receiver.className? m.store = some className)
    (hb : p.classes.find? (qualifier.getD className) = none) :
    dispatch p eval receiver qualifier method arguments position m =
      .error (.fault ⟨.internal s!"unknown class {qualifier.getD className}", position⟩) m := by
  have hname : Eval.className? receiver m = .ok (some className) m := by rw [Eval.className?, hc]
  rw [dispatch, bind_ok hname]
  exact bind_error (blueprint_of_none hb position m)

theorem dispatch_undefined (hc : receiver.className? m.store = some className)
    (hb : p.classes.find? (qualifier.getD className) = some b)
    (hm : b.findMethod? method arguments.length = none) :
    dispatch p eval receiver qualifier method arguments position m =
      .error (.fault ⟨.undefinedMethod b.name method, position⟩) m := by
  have hname : Eval.className? receiver m = .ok (some className) m := by rw [Eval.className?, hc]
  rw [dispatch, bind_ok hname]
  refine (bind_ok (blueprint_of_some hb position m)).trans ?_
  simp only [hm]
  rfl

theorem dispatch_found (hc : receiver.className? m.store = some className)
    (hb : p.classes.find? (qualifier.getD className) = some b)
    (hm : b.findMethod? method arguments.length = some found) :
    dispatch p eval receiver qualifier method arguments position m =
      invoke p eval receiver found arguments position m := by
  have hname : Eval.className? receiver m = .ok (some className) m := by rw [Eval.className?, hc]
  rw [dispatch, bind_ok hname]
  refine (bind_ok (blueprint_of_some hb position m)).trans ?_
  simp only [hm]
  rfl

/-- A call is a fault at once or invokes the method that its look-ups found. -/
theorem dispatch_cases (p : Program) (eval : Evaluator) (receiver : Value)
    (qualifier : Option String) (method : String) (arguments : List Value) (position : Position)
    (m : Machine) :
    (∃ d, dispatch p eval receiver qualifier method arguments position m = .error (.fault d) m) ∨
    ∃ className b found, receiver.className? m.store = some className ∧
      p.classes.find? (qualifier.getD className) = some b ∧
      b.findMethod? method arguments.length = some found ∧
      dispatch p eval receiver qualifier method arguments position m =
        invoke p eval receiver found arguments position m := by
  cases hc : receiver.className? m.store with
  | none => exact Or.inl ⟨_, dispatch_void hc⟩
  | some className =>
      cases hb : p.classes.find? (qualifier.getD className) with
      | none => exact Or.inl ⟨_, dispatch_unknown hc hb⟩
      | some b =>
          cases hm : b.findMethod? method arguments.length with
          | none => exact Or.inl ⟨_, dispatch_undefined hc hb hm⟩
          | some found =>
              exact Or.inr ⟨className, b, found, rfl, hb, hm, dispatch_found hc hb hm⟩

/-- A method written in the program is called if one more call may be nested. -/
theorem invoke_cases (p : Program) (eval : Evaluator) (receiver : Value) {found : Method}
    (arguments : List Value) (position : Position) (m : Machine)
    (hprim : found.primitive? = none) :
    invoke p eval receiver found arguments position m =
        .error (.fault ⟨.callDepthExceeded p.maxCallDepth, position⟩) m ∨
    m.callDepth < p.maxCallDepth ∧
      invoke p eval receiver found arguments position m =
        withinCall (bindFormals (.ofSelf receiver) found.formals arguments >>=
          fun env => eval found.body env) m := by
  rw [invoke, hprim]
  by_cases hdepth : p.maxCallDepth ≤ m.callDepth
  · have hguard : guardCall p position m =
        .error (.fault ⟨.callDepthExceeded p.maxCallDepth, position⟩) m := by
      rw [guardCall, if_pos hdepth]
      rfl
    exact Or.inl (bind_error hguard)
  · have hguard : guardCall p position m = .ok () m := by
      rw [guardCall, if_neg hdepth]
    exact Or.inr ⟨Nat.lt_of_not_le hdepth, bind_ok hguard⟩

theorem name_local {env : Environment} {x : String} {v : Value}
    (hx : env.get? m.store x = some v) : name p eval x env position m = .ok v m := by
  have hlocal : local? env x m = .ok (some v) m := by rw [local?, hx]
  exact bind_ok hlocal

theorem name_attribute {env : Environment} {x : String} {v : Value}
    (hx : env.get? m.store x = none) (hv : (env.self.object? m.store).bind (·.get? x) = some v) :
    name p eval x env position m = .ok v m := by
  have hlocal : local? env x m = .ok none m := by rw [local?, hx]
  have hattribute : attribute? env x m = .ok (some v) m := by rw [attribute?, hv]
  exact (bind_ok hlocal).trans (bind_ok hattribute)

theorem name_method {env : Environment} {x : String} (hx : env.get? m.store x = none)
    (hnone : (env.self.object? m.store).bind (·.get? x) = none) :
    name p eval x env position m = dispatch p eval env.self none x [] position m := by
  have hlocal : local? env x m = .ok none m := by rw [local?, hx]
  have hattribute : attribute? env x m = .ok none m := by rw [attribute?, hnone]
  exact (bind_ok hlocal).trans (bind_ok hattribute)

/-- A name is a variable or a call. -/
theorem name_cases (p : Program) (eval : Evaluator) (x : String) (env : Environment)
    (position : Position) (m : Machine) :
    (∃ v, name p eval x env position m = .ok v m) ∨
    name p eval x env position m = dispatch p eval env.self none x [] position m := by
  cases hx : env.get? m.store x with
  | some v => exact Or.inl ⟨v, name_local hx⟩
  | none =>
      cases hv : (env.self.object? m.store).bind (·.get? x) with
      | some v => exact Or.inl ⟨v, name_attribute hx hv⟩
      | none => exact Or.inr (name_method hx hv)

/-- An object is made if its class is not under construction and constructions are not nested too
deep. -/
theorem construct_cases (eval : Evaluator) (position : Position) (m : Machine)
    (hb : p.classes.find? className = some b) :
    (∃ cause ∈ [Cause.circularInitialization className,
        .constructionDepthExceeded p.maxConstructionDepth],
      construct p eval className position m = .error (.fault ⟨cause, position⟩) m) ∨
    className ∉ m.constructing ∧ m.constructing.length < p.maxConstructionDepth ∧
      construct p eval className position m =
        (withinConstruction className (runInitializers eval m.store.objects.size b.layout) >>=
          fun _ => pure (.object m.store.objects.size))
          { m with store := m.store.addObject (.ofBlueprint b) } := by
  rcases guardConstruction_cases p className position m with
    hguard | ⟨-, -, hguard⟩ | ⟨hfresh, hdepth, hguard⟩
  · exact Or.inl ⟨_, List.mem_cons_self, bind_error hguard⟩
  · exact Or.inl ⟨_, List.mem_cons_of_mem _ List.mem_cons_self, bind_error hguard⟩
  · refine Or.inr ⟨hfresh, hdepth, ?_⟩
    exact (bind_ok hguard).trans (bind_ok (blueprint_of_some hb position m))

theorem newClass_of_none {typeName : String} {env : Environment}
    (hself : typeName = ClassName.selfType) (hc : env.self.className? m.store = none)
    (position : Position) : newClass typeName env position m =
      .error (.fault ⟨.internal "self is void", position⟩) m := by
  have hname : Eval.className? env.self m = .ok none m := by rw [Eval.className?, hc]
  rw [newClass, if_pos hself]
  exact bind_ok hname

theorem newClass_of_some {typeName : String} {env : Environment}
    (hself : typeName = ClassName.selfType) (hc : env.self.className? m.store = some className)
    (position : Position) : newClass typeName env position m = .ok className m := by
  have hname : Eval.className? env.self m = .ok (some className) m := by rw [Eval.className?, hc]
  rw [newClass, if_pos hself]
  exact bind_ok hname

theorem branch_void {v : Value} (hc : v.className? m.store = none) (branches : List Branch)
    (env : Environment) :
    branch p eval v branches env position m = .error (.fault ⟨.caseOnVoid, position⟩) m := by
  have hname : Eval.className? v m = .ok none m := by rw [Eval.className?, hc]
  exact bind_ok hname

theorem branch_unknown {v : Value} (hc : v.className? m.store = some className)
    (hb : p.classes.find? className = none) (branches : List Branch) (env : Environment) :
    branch p eval v branches env position m =
      .error (.fault ⟨.internal s!"unknown class {className}", position⟩) m := by
  have hname : Eval.className? v m = .ok (some className) m := by rw [Eval.className?, hc]
  exact (bind_ok hname).trans (bind_error (blueprint_of_none hb position m))

theorem branch_unmatched {v : Value} {branches : List Branch}
    (hc : v.className? m.store = some className) (hb : p.classes.find? className = some b)
    (hbranch : closestBranch? b branches = none) (env : Environment) :
    branch p eval v branches env position m =
      .error (.fault ⟨.noMatchingBranch className, position⟩) m := by
  have hname : Eval.className? v m = .ok (some className) m := by rw [Eval.className?, hc]
  refine (bind_ok hname).trans ((bind_ok (blueprint_of_some hb position m)).trans ?_)
  simp only [hbranch]
  rfl

theorem branch_matched {v : Value} {branches : List Branch} {distance : Nat} {chosen : Branch}
    (hc : v.className? m.store = some className) (hb : p.classes.find? className = some b)
    (hbranch : closestBranch? b branches = some (distance, chosen)) (env : Environment) :
    branch p eval v branches env position m =
      (define env chosen.name v >>= fun env => eval chosen.body env) m := by
  have hname : Eval.className? v m = .ok (some className) m := by rw [Eval.className?, hc]
  refine (bind_ok hname).trans ((bind_ok (blueprint_of_some hb position m)).trans ?_)
  simp only [hbranch]

/-- A branch is chosen, or there is none for the value. -/
theorem branch_cases (p : Program) (eval : Evaluator) (v : Value) (branches : List Branch)
    (env : Environment) (position : Position) (m : Machine) :
    (∃ d, branch p eval v branches env position m = .error (.fault d) m) ∨
    ∃ className b distance chosen, v.className? m.store = some className ∧
      p.classes.find? className = some b ∧
      closestBranch? b branches = some (distance, chosen) ∧
      branch p eval v branches env position m =
        (define env chosen.name v >>= fun env => eval chosen.body env) m := by
  cases hc : v.className? m.store with
  | none => exact Or.inl ⟨_, branch_void hc branches env⟩
  | some className =>
      cases hb : p.classes.find? className with
      | none => exact Or.inl ⟨_, branch_unknown hc hb branches env⟩
      | some b =>
          cases hbranch : closestBranch? b branches with
          | none => exact Or.inl ⟨_, branch_unmatched hc hb hbranch env⟩
          | some found =>
              exact Or.inr ⟨className, b, found.1, found.2, rfl, hb, hbranch,
                branch_matched hc hb hbranch env⟩

end

/-- The branch that is chosen is one of them, and its type is an ancestor's name. -/
theorem closestBranch?_eq_some {b : Blueprint} {branches : List Branch} {distance : Nat}
    {chosen : Branch} (h : closestBranch? b branches = some (distance, chosen)) :
    chosen ∈ branches ∧ b.distance? chosen.typeName = some distance := by
  induction branches generalizing distance chosen with
  | nil => cases h
  | cons branch branches ih =>
      rw [closestBranch?] at h
      cases hd : b.distance? branch.typeName with
      | none =>
          rw [hd] at h
          obtain ⟨hmem, hdist⟩ := ih h
          exact ⟨List.mem_cons_of_mem _ hmem, hdist⟩
      | some d =>
          cases hrest : closestBranch? b branches with
          | none =>
              simp only [hd, hrest, Option.some.injEq, Prod.mk.injEq] at h
              obtain ⟨rfl, rfl⟩ := h
              exact ⟨List.mem_cons_self, hd⟩
          | some best =>
              simp only [hd, hrest] at h
              split at h
              · cases h
                exact ⟨List.mem_cons_self, hd⟩
              · cases h
                obtain ⟨hmem, hdist⟩ := ih hrest
                exact ⟨List.mem_cons_of_mem _ hmem, hdist⟩

end Eval

/-! ## Operations of the built-in classes -/

/-- The causes that evaluation stops for. -/
def Cause.isRuntime : Cause → Bool
  | .abort _ | .divisionByZero | .dispatchOnVoid _ | .caseOnVoid | .noMatchingBranch _
  | .substringOutOfRange _ _ _ | .circularInitialization _ | .constructionDepthExceeded _
  | .callDepthExceeded _ | .undefinedMethod _ _ | .internal _ => true
  | _ => false

/-- The causes that an operation of a built-in class stops for. -/
def Cause.isOperational : Cause → Bool
  | .abort _ | .substringOutOfRange _ _ _ | .internal _ => true
  | _ => false

theorem Cause.isRuntime_of_isOperational {c : Cause} (hc : c.isOperational = true) :
    c.isRuntime = true := by
  cases c with
  | abort | substringOutOfRange | internal => rfl
  | _ => cases hc

namespace Primitive

/-- What an operation of a built-in class comes to, once its operands have been looked at. -/
inductive Action where
  | value (v : Value)
  | fault (cause : Cause) (hcause : cause.isOperational = true)
  | copy
  | write (text : String)
  | read (answer : Option String → Value)

def Action.run (receiver : Value) (position : Position) : Action → Eval Value
  | value v => return v
  | fault cause _ => Eval.fault cause position
  | copy => Eval.copy receiver
  | write text => do
    Eval.write text
    return receiver
  | read answer => do return answer (← nextLine? position)

/-- Operands of another number or kind than the operation asks for. -/
def Action.misuse (operation : Primitive) (values : List Value) (shown : String) : Action :=
  .fault (.internal
    s!"built-in {operation.name} called on {shown} with {values.length} argument(s)") rfl

/-- What an operation does depends on the machine by the class of the receiver and by the way it is
shown in messages only. -/
theorem perform_eq (operation : Primitive) (receiver : Value) (values : List Value)
    (position : Position) : ∃ act : Option String → String → Action, ∀ m : Machine,
      operation.perform receiver values position m =
        (act (receiver.className? m.store) (receiver.render m.store)).run receiver position m := by
  have hmisuse : ∀ x : Eval Value,
      (∀ m, x m = ((Action.misuse operation values (receiver.render m.store)).run
        receiver position) m) → ∃ act : Option String → String → Action, ∀ m : Machine,
          x m = (act (receiver.className? m.store) (receiver.render m.store)).run
            receiver position m :=
    fun x hx => ⟨fun _ shown => .misuse operation values shown, hx⟩
  cases operation with
  | abort =>
      cases values with
      | nil => exact ⟨fun owner _ => .fault (.abort (owner.getD "")) rfl, fun m => rfl⟩
      | cons => exact hmisuse _ fun m => rfl
  | typeName =>
      cases values with
      | nil => exact ⟨fun owner _ => .value (.str (owner.getD "")), fun m => rfl⟩
      | cons => exact hmisuse _ fun m => rfl
  | copy =>
      cases values with
      | nil => exact ⟨fun _ _ => .copy, fun m => rfl⟩
      | cons => exact hmisuse _ fun m => rfl
  | outString =>
      rcases values with _ | ⟨v, _ | ⟨w, ws⟩⟩
      · exact hmisuse _ fun m => rfl
      · cases v with
        | str text => exact ⟨fun _ _ => .write text, fun m => rfl⟩
        | _ => exact hmisuse _ fun m => rfl
      · cases v <;> exact hmisuse _ fun m => rfl
  | outInt =>
      rcases values with _ | ⟨v, _ | ⟨w, ws⟩⟩
      · exact hmisuse _ fun m => rfl
      · cases v with
        | int n => exact ⟨fun _ _ => .write (Text.decimal n), fun m => rfl⟩
        | _ => exact hmisuse _ fun m => rfl
      · cases v <;> exact hmisuse _ fun m => rfl
  | inString =>
      cases values with
      | nil => exact ⟨fun _ _ => .read fun line => .str (line.getD ""), fun m => rfl⟩
      | cons => exact hmisuse _ fun m => rfl
  | inInt =>
      cases values with
      | nil =>
          exact ⟨fun _ _ => .read fun line => .int ((line.map numberOn).getD 0), fun m => rfl⟩
      | cons => exact hmisuse _ fun m => rfl
  | length =>
      cases receiver with
      | str text =>
          cases values with
          | nil => exact ⟨fun _ _ => .value (.int (Int64.ofNat text.length)), fun m => rfl⟩
          | cons => exact hmisuse _ fun m => rfl
      | _ => exact hmisuse _ fun m => rfl
  | concat =>
      cases receiver with
      | str text =>
          rcases values with _ | ⟨v, _ | ⟨w, ws⟩⟩
          · exact hmisuse _ fun m => rfl
          · cases v with
            | str suffix => exact ⟨fun _ _ => .value (.str (text ++ suffix)), fun m => rfl⟩
            | _ => exact hmisuse _ fun m => rfl
          · cases v <;> exact hmisuse _ fun m => rfl
      | _ => exact hmisuse _ fun m => rfl
  | substr =>
      cases receiver with
      | str text =>
          rcases values with _ | ⟨v, _ | ⟨w, _ | ⟨u, us⟩⟩⟩
          · exact hmisuse _ fun m => rfl
          · cases v <;> exact hmisuse _ fun m => rfl
          · cases v with
            | int start =>
                cases w with
                | int size =>
                    unfold perform
                    dsimp only
                    cases substring? text start size with
                    | some part => exact ⟨fun _ _ => .value (.str part), fun m => rfl⟩
                    | none =>
                        exact ⟨fun _ _ =>
                          .fault (.substringOutOfRange start size text.length) rfl, fun m => rfl⟩
                | _ => exact hmisuse _ fun m => rfl
            | _ => exact hmisuse _ fun m => rfl
          · cases v with
            | int start => cases w <;> exact hmisuse _ fun m => rfl
            | _ => exact hmisuse _ fun m => rfl
      | _ => exact hmisuse _ fun m => rfl

/-- What can come of an operation of a built-in class. -/
inductive Effect (receiver : Value) (position : Position) (m : Machine) :
    EStateM.Result Halt Machine Value → Prop where
  | value (v : Value) : Effect receiver position m (.ok v m)
  | fault (d : Diagnostic) : Effect receiver position m (.error (.fault d) m)
  | copy : Effect receiver position m (Eval.copy receiver m)
  | write (text : String) :
      Effect receiver position m ((do Eval.write text; return receiver : Eval Value) m)
  | read (value : Option String → Value) :
      Effect receiver position m ((do return value (← nextLine? position) : Eval Value) m)

theorem perform_effect (operation : Primitive) (receiver : Value) (values : List Value)
    (position : Position) (m : Machine) :
    Effect receiver position m (operation.perform receiver values position m) := by
  obtain ⟨act, hact⟩ := operation.perform_eq receiver values position
  rw [hact m]
  cases act (receiver.className? m.store) (receiver.render m.store) with
  | value v => exact .value v
  | fault cause _ => exact .fault ⟨cause, position⟩
  | copy => exact .copy
  | write text => exact .write text
  | read value => exact .read value

end Primitive

end CoolLang
