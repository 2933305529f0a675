import CoolLang.Evaluation.Primitive

/-!
# Evaluation of expressions

Each kind of expression has its rule, which is given the evaluator `eval` of the expressions inside
it. The evaluator itself is indexed by fuel, which bounds how deep evaluation nests and how often a
loop goes round.
-/

namespace CoolLang

namespace Eval

/-! ## Objects and calls -/

def blueprint (p : Program) (name : String) (position : Position) : Eval Blueprint :=
  match p.classes.find? name with
  | some b => return b
  | none => broken s!"unknown class {name}" position

/-- Evaluates the initial values of the attributes in order, with `self` the new object. -/
@[specialize] def runInitializers (eval : Evaluator) (place : Nat) : List Attribute → Eval Unit
  | [] => return
  | slot :: slots => do
    match slot.init with
    | none => runInitializers eval place slots
    | some init =>
      let value ← eval init (.ofSelf (.object place))
      setField place slot.name value
      runInitializers eval place slots

/-- Whether the construction of an object may begin: the class is not under construction already,
and constructions are not nested too deep. -/
def guardConstruction (p : Program) (className : String) (position : Position) : Eval Unit :=
  fun m =>
    if m.constructing.contains className then fault (.circularInitialization className) position m
    else if p.maxConstructionDepth ≤ m.constructing.length then
      fault (.constructionDepthExceeded p.maxConstructionDepth) position m
    else .ok () m

/-- Makes an object of a class written in the program. -/
@[specialize] def construct (p : Program) (eval : Evaluator) (className : String)
    (position : Position) : Eval Value := do
  guardConstruction p className position
  let b ← blueprint p className position
  let place ← addObject (.ofBlueprint b)
  withinConstruction className (runInitializers eval place b.layout)
  return .object place

/-- The value of `new`. The root class and `IO` have one object each. -/
@[specialize] def instantiate (p : Program) (eval : Evaluator) (className : String)
    (position : Position) : Eval Value :=
  if ClassName.finals.contains className then return .defaultFor className
  else if className = ClassName.object then return .object Machine.rootObject
  else if className = ClassName.io then return .object Machine.ioObject
  else construct p eval className position

/-- Whether one more call may be nested. -/
def guardCall (p : Program) (position : Position) : Eval Unit :=
  fun m =>
    if p.maxCallDepth ≤ m.callDepth then fault (.callDepthExceeded p.maxCallDepth) position m
    else .ok () m

/-- Binds the formals of a method to its arguments. -/
def bindFormals (env : Environment) : List Parameter → List Value → Eval Environment
  | formal :: formals, argument :: arguments => do
    let env ← define env formal.name argument
    bindFormals env formals arguments
  | _, _ => return env

/-- Calls a method on a receiver. It is looked up from the qualifying class on if there is one, else
from the class of the receiver on. -/
@[specialize] def dispatch (p : Program) (eval : Evaluator) (receiver : Value)
    (qualifier : Option String) (method : String) (arguments : List Value)
    (position : Position) : Eval Value := do
  match ← className? receiver with
  | none => fault (.dispatchOnVoid method) position
  | some className =>
    let b ← blueprint p (qualifier.getD className) position
    match b.findMethod? method arguments.length with
    | none => fault (.undefinedMethod b.name method) position
    | some m =>
      match m.primitive? with
      | some operation => operation.perform receiver arguments position
      | none =>
        guardCall p position
        withinCall do
          let env ← bindFormals (.ofSelf receiver) m.formals arguments
          eval m.body env

/-! ## Kinds of expressions -/

@[specialize] def bool (eval : Evaluator) (e : Expr) (env : Environment) : Eval Bool := do
  match ← eval e env with
  | .bool b => return b
  | v => broken s!"expected a Bool, found {← render v}" e.span.start

@[specialize] def int (eval : Evaluator) (e : Expr) (env : Environment) : Eval Int64 := do
  match ← eval e env with
  | .int n => return n
  | v => broken s!"expected an Int, found {← render v}" e.span.start

/-- A name is a local variable, else an attribute of `self`, else a call without arguments. -/
@[specialize] def name (p : Program) (eval : Evaluator) (name : String) (env : Environment)
    (position : Position) : Eval Value := do
  match ← local? env name with
  | some v => return v
  | none =>
    match ← attribute? env name with
    | some v => return v
    | none => dispatch p eval env.self none name [] position

@[specialize] def arguments (eval : Evaluator) (env : Environment) :
    List Expr → Eval (List Value)
  | [] => return []
  | e :: es => do
    let v ← eval e env
    let vs ← arguments eval env es
    return v :: vs

/-- The class that `new` names, where `SELF_TYPE` is the class of `self`. -/
def newClass (typeName : String) (env : Environment) (position : Position) : Eval String := do
  if typeName = ClassName.selfType then
    match ← className? env.self with
    | some className => return className
    | none => broken "self is void" position
  else return typeName

/-- Evaluates the body as long as the condition holds, at most so many times. -/
@[specialize] def repeatWhile (condition : Eval Bool) (body : Eval Value) : Nat → Eval Value
  | 0 => outOfFuel
  | n + 1 => do
    if ← condition then
      let _ ← body
      repeatWhile condition body n
    else return .void

/-- The value of the last expression, or the given one if there is none. -/
@[specialize] def sequence (eval : Evaluator) (env : Environment) (last : Value) :
    List Expr → Eval Value
  | [] => return last
  | e :: es => do
    let v ← eval e env
    sequence eval env v es

/-- Adds the variables of a `let` one after the other; each initial value sees those before it. -/
@[specialize] def bindings (eval : Evaluator) (env : Environment) :
    List Binding → Eval Environment
  | [] => return env
  | b :: bs => do
    let v ← match b.init with
      | some init => eval init env
      | none => pure (.defaultFor b.typeName)
    let env ← define env b.name v
    bindings eval env bs

/-- The first of the branches whose types are nearest above the class, if any is above it. -/
def closestBranch? (b : Blueprint) : List Branch → Option (Nat × Branch)
  | [] => none
  | branch :: branches =>
    match b.distance? branch.typeName, closestBranch? b branches with
    | none, best => best
    | some distance, none => some (distance, branch)
    | some distance, some (least, best) =>
      if distance ≤ least then some (distance, branch) else some (least, best)

@[specialize] def branch (p : Program) (eval : Evaluator) (v : Value) (branches : List Branch)
    (env : Environment) (position : Position) : Eval Value := do
  match ← className? v with
  | none => fault .caseOnVoid position
  | some className =>
    let b ← blueprint p className position
    match closestBranch? b branches with
    | none => fault (.noMatchingBranch className) position
    | some (_, branch) =>
      let env ← define env branch.name v
      eval branch.body env

/-- Arithmetic is modulo 2^64; division goes towards zero. -/
def arithmetic (op : BinaryOp) (a b : Int64) (position : Position) : Eval Value :=
  match op with
  | .plus => return .int (a + b)
  | .minus => return .int (a - b)
  | .times => return .int (a * b)
  | .divide => if b = 0 then fault .divisionByZero position else return .int (a / b)
  | .less => return .bool (a < b)
  | .lessEquals => return .bool (a ≤ b)
  | .equals => return .bool (a == b)

@[specialize] def binary (eval : Evaluator) (op : BinaryOp) (left right : Expr)
    (env : Environment) (position : Position) : Eval Value := do
  if op = .equals then
    let a ← eval left env
    let b ← eval right env
    return .bool (a == b)
  else
    let a ← int eval left env
    let b ← int eval right env
    arithmetic op a b position

/-- The rule for each kind of expression. Loops go round at most `rounds` times. -/
@[inline] def step (p : Program) (eval : Evaluator) (rounds : Nat) : Evaluator :=
  fun e env =>
    match e with
    | .int n _ => return .int n
    | .str s _ => return .str s
    | .bool b _ => return .bool b
    | .self _ => return env.self
    | .name n span => name p eval n env span.start
    | .assign n value span => do
      let v ← eval value env
      assign env n v span.start
      return v
    | .dispatch receiver qualifier method args span => do
      let self ← match receiver with
        | some e => eval e env
        | none => pure env.self
      let values ← arguments eval env args
      dispatch p eval self qualifier method values span.start
    | .new typeName span => do
      let className ← newClass typeName env span.start
      instantiate p eval className span.start
    | .cond condition thenBranch elseBranch _ => do
      if ← bool eval condition env then eval thenBranch env else eval elseBranch env
    | .loop condition body _ => repeatWhile (bool eval condition env) (eval body env) rounds
    | .block body _ => sequence eval env .void body
    | .letIn bs body _ => do
      let env ← bindings eval env bs
      eval body env
    | .caseOf scrutinee branches span => do
      let v ← eval scrutinee env
      branch p eval v branches env span.start
    | .isVoid operand _ => do
      let v ← eval operand env
      return .bool v.isVoid
    | .unary .negate operand _ => do
      let n ← int eval operand env
      return .int (-n)
    | .unary .not operand _ => do
      let b ← bool eval operand env
      return .bool !b
    | .binary op left right span => binary eval op left right env span.start
    | .primitive operation span =>
      broken s!"built-in {operation.name} evaluated outside a dispatch" span.start

end Eval

/-- Evaluates an expression. The fuel bounds the nesting and the rounds of each loop. -/
def eval (p : Program) : Nat → Evaluator
  | 0 => fun _ _ => Eval.outOfFuel
  | fuel + 1 => Eval.step p (eval p fuel) fuel

namespace Eval

/-- Runs a program: makes an object of the main class and calls its main method. -/
def program (p : Program) (fuel : Nat) : Eval Value := do
  let object ← instantiate p (eval p fuel) ClassName.mainClass .nowhere
  dispatch p (eval p fuel) object none mainMethod [] .nowhere

end Eval

end CoolLang
