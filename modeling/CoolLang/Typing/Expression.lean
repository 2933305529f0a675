import CoolLang.Typing.Checker

/-!
# Types of expressions
-/

namespace CoolLang

namespace Check

/-- The type of a local name or of an attribute of the current class. -/
def variableType? (h : Hierarchy) (name : String) : Check (Option String) := fun s =>
  match s.scope.typeOf? name with
  | some typeName => (some typeName, s)
  | none =>
    match h.findAttribute? s.currentClass name with
    | some (_, a) =>
      (some (if a.typeName = ClassName.selfType then s.currentClass else a.typeName), s)
    | none => (none, s)

/-- A name is a variable or, failing that, a call without arguments on `self`. -/
def name (h : Hierarchy) (name : String) (position : Position) : Check String := do
  match ← variableType? h name with
  | some typeName => return typeName
  | none =>
    match h.findMethod? (← currentClass) name with
    | some (_, ⟨_, returnType, [], _, _⟩) => resolve returnType
    | _ =>
      report (.variableNotDeclared name) position
      return ClassName.object

/-- An assignment of a value of type `received` to a name. -/
def assignment (h : Hierarchy) (name received : String) (position valuePosition : Position) :
    Check Unit := do
  match ← variableType? h name with
  | some expected => requireConforms h received expected s!"assignment to {name}" valuePosition
  | none => if name = "self" then return else report (.variableNotDeclared name) position

/-- The class in which a call looks up its method, if it can be told. -/
def lookupClass? (h : Hierarchy) (receiver : String) (qualifier : Option String)
    (position : Position) : Check (Option String) := do
  match qualifier with
  | none => return some receiver
  | some typeName =>
    if typeName = ClassName.selfType then
      report (.selfTypeNotAllowed "a static dispatch") position
      return none
    else if !h.contains typeName then
      report (.unknownType typeName) position
      return none
    else
      requireConforms h receiver typeName "static dispatch receiver" position
      return some typeName

/-- Compares the arguments of a call, counted from `index`, with the formals of its method. -/
def argumentsConform (h : Hierarchy) (method : String) (index : Nat) :
    List Parameter → List (String × Position) → Check Unit
  | formal :: formals, (received, position) :: arguments => do
    if !h.conforms received formal.typeName then
      report (.argumentTypeMismatch method index formal.typeName received) position
    argumentsConform h method (index + 1) formals arguments
  | _, _ => return

/-- The type of a call whose receiver and arguments have been checked. A method that returns
`SELF_TYPE` returns what the receiver is, even in a qualified call. -/
def call (h : Hierarchy) (receiver lookupClass method : String)
    (arguments : List (String × Position)) (position : Position) : Check String := do
  match h.findMethod? lookupClass method with
  | none =>
    report (.undefinedMethod lookupClass method) position
    return ClassName.object
  | some (_, m) =>
    if m.arity = arguments.length then argumentsConform h method 1 m.formals arguments
    else report (.unexpectedArguments method m.arity arguments.length) position
    return if m.returnType = ClassName.selfType then receiver else m.returnType

def unary (op : UnaryOp) (received : String) (position : Position) : Check String := do
  match op with
  | .negate =>
    requireExact received ClassName.int "operand of ~" position
    return ClassName.int
  | .not =>
    requireExact received ClassName.bool "operand of not" position
    return ClassName.bool

def binary (op : BinaryOp) (left right : String) (leftPosition rightPosition : Position) :
    Check String := do
  if op = .equals then return ClassName.bool
  let context := s!"operand of {op.symbol}"
  requireExact left ClassName.int context leftPosition
  requireExact right ClassName.int context rightPosition
  return if op.isArithmetic then ClassName.int else ClassName.bool

/-- Checks what a branch of a `case` declares, given the types of the branches before it. -/
def branchHead (h : Hierarchy) (b : Branch) (seen : List String) : Check String := do
  requireBindable b.name "bound in a case branch" b.span.start
  let typeName ← declaredClass h b.typeName s!"case branch {b.name}" b.span.start
  if seen.contains b.typeName then report (.duplicateCaseBranch b.typeName) b.span.start
  return typeName

end Check

mutual

/-- The type of an expression. What is wrong with it goes to the log. -/
def checkExpr (h : Hierarchy) : Expr → Check String
  | .int .. => return ClassName.int
  | .str .. => return ClassName.string
  | .bool .. => return ClassName.bool
  | .self _ => Check.currentClass
  | .name name span => Check.name h name span.start
  | .assign name value span => do
    Check.requireBindable name "assigned" span.start
    let received ← checkExpr h value
    Check.assignment h name received span.start value.span.start
    return received
  | .dispatch receiver qualifier method arguments span => do
    let receiverType ← checkReceiver h receiver
    let lookupClass ← Check.lookupClass? h receiverType qualifier span.start
    let argumentTypes ← checkArguments h arguments
    match lookupClass with
    | none => return ClassName.object
    | some c => Check.call h receiverType c method argumentTypes span.start
  | .new typeName span => Check.declaredType h typeName span.start
  | .cond condition thenBranch elseBranch _ => do
    let received ← checkExpr h condition
    Check.requireExact received ClassName.bool "if condition" condition.span.start
    let thenType ← checkExpr h thenBranch
    let elseType ← checkExpr h elseBranch
    return h.join thenType elseType
  | .loop condition body _ => do
    let received ← checkExpr h condition
    Check.requireExact received ClassName.bool "loop condition" condition.span.start
    let _ ← checkExpr h body
    return ClassName.object
  | .block body _ => checkSequence h ClassName.object body
  | .letIn bindings body _ => do
    Check.modifyScope .push
    checkBindings h bindings
    let bodyType ← checkExpr h body
    Check.modifyScope .pop
    return bodyType
  | .caseOf scrutinee branches _ => do
    let _ ← checkExpr h scrutinee
    let types ← checkBranches h [] branches
    return match types with
      | [] => ClassName.object
      | first :: rest => rest.foldl h.join first
  | .isVoid operand _ => do
    let _ ← checkExpr h operand
    return ClassName.bool
  | .unary op operand _ => do
    let received ← checkExpr h operand
    Check.unary op received operand.span.start
  | .binary op left right _ => do
    let leftType ← checkExpr h left
    let rightType ← checkExpr h right
    Check.binary op leftType rightType left.span.start right.span.start
  | .primitive .. => return ClassName.object

/-- A call without a receiver goes to `self`. -/
def checkReceiver (h : Hierarchy) : Option Expr → Check String
  | none => Check.currentClass
  | some e => checkExpr h e

/-- The types of arguments, with the positions to complain at. -/
def checkArguments (h : Hierarchy) : List Expr → Check (List (String × Position))
  | [] => return []
  | e :: es => do
    let typeName ← checkExpr h e
    let rest ← checkArguments h es
    return (typeName, e.span.start) :: rest

/-- The type of the last expression, or the given one if there is none. -/
def checkSequence (h : Hierarchy) (last : String) : List Expr → Check String
  | [] => return last
  | e :: es => do
    let typeName ← checkExpr h e
    checkSequence h typeName es

/-- Each variable of a `let` is in scope from its binding on. -/
def checkBindings (h : Hierarchy) : List Binding → Check Unit
  | [] => return
  | ⟨name, typeName, init, span⟩ :: bindings => do
    Check.requireBindable name "bound in a let" span.start
    let declared ← Check.declaredType h typeName span.start
    checkInitializer h s!"initializer of {name}" declared init
    Check.modifyScope (·.declare name declared)
    checkBindings h bindings

/-- The initial value of something declared with a type, if it has one. -/
def checkInitializer (h : Hierarchy) (context declared : String) : Option Expr → Check Unit
  | none => return
  | some e => do
    let received ← checkExpr h e
    Check.requireConforms h received declared context e.span.start

/-- The types of the bodies of branches, given the types named by the branches before them. -/
def checkBranches (h : Hierarchy) (seen : List String) : List Branch → Check (List String)
  | [] => return []
  | ⟨name, typeName, body, span⟩ :: branches => do
    let declared ← Check.branchHead h ⟨name, typeName, body, span⟩ seen
    Check.modifyScope (·.push.declare name declared)
    let bodyType ← checkExpr h body
    Check.modifyScope .pop
    let rest ← checkBranches h (typeName :: seen) branches
    return bodyType :: rest

end

end CoolLang
