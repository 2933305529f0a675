import CoolLang.Diagnostic.Basic
import CoolLang.Evaluation.Input
import CoolLang.Object.Environment

/-!
# The state of a run

Evaluation changes a machine: the store, the text written so far, the input still unread, and the
two records that bound recursion. It ends with a value or halts; the machine is kept either way.
-/

namespace CoolLang

/-- What is fixed during a run. -/
structure Program where
  classes : ClassTable
  maxCallDepth : Nat
  maxConstructionDepth : Nat

structure Machine where
  store : Store
  output : String
  input : Input
  /-- The classes whose objects are being initialised, the innermost first. -/
  constructing : List String
  /-- How many calls of methods written in the program are under way. -/
  callDepth : Nat

namespace Machine

/-- The place of the one object of the root class. -/
def rootObject : Nat := 0

/-- The place of the one object of class `IO`. -/
def ioObject : Nat := 1

/-- A machine at rest. Its store holds the two objects that are shared by a whole run. -/
def initial (h : Hierarchy) (input : Input) : Machine where
  store := Store.empty
    |>.addObject (.ofBlueprint (.ofClass h ClassName.object))
    |>.addObject (.ofBlueprint (.ofClass h ClassName.io))
  output := ""
  input := input
  constructing := []
  callDepth := 0

end Machine

/-- Why evaluation stopped without a value. -/
inductive Halt where
  | fault (d : Diagnostic)
  /-- The fuel given to the evaluator was used up. -/
  | outOfFuel
deriving DecidableEq

abbrev Eval := EStateM Halt Machine

/-- How expressions inside an expression are evaluated. -/
abbrev Evaluator := Expr → Environment → Eval Value

namespace Eval

def fault {α : Type} (cause : Cause) (position : Position) : Eval α :=
  fun m => .error (.fault ⟨cause, position⟩) m

/-- A fault that a program which passed the type check should not be able to cause. -/
def broken {α : Type} (message : String) (position : Position) : Eval α :=
  fault (.internal message) position

def outOfFuel {α : Type} : Eval α :=
  fun m => .error .outOfFuel m

def className? (v : Value) : Eval (Option String) :=
  fun m => .ok (v.className? m.store) m

def render (v : Value) : Eval String :=
  fun m => .ok (v.render m.store) m

/-- Adds text to the output. -/
def write (text : String) : Eval Unit :=
  fun m => .ok () { m with output := m.output ++ text }

def readLine : Eval Input.Line :=
  fun m =>
    let (line, rest) := m.input.readLine
    .ok line { m with input := rest }

/-- Puts a new object into the store and yields its place. -/
def addObject (o : Object) : Eval Nat :=
  fun m =>
    let place := m.store.objects.size
    .ok place { m with store := m.store.addObject o }

/-- A copy of a value. The copy of an object is a new object with the same attributes; every other
value is its own copy. -/
def copy (v : Value) : Eval Value :=
  fun m =>
    let (v', store) := v.copy m.store
    .ok v' { m with store }

def setField (place : Nat) (name : String) (v : Value) : Eval Unit :=
  fun m => .ok () { m with store := m.store.setField place name v }

/-- Binds a name to a new cell. -/
def define (env : Environment) (name : String) (v : Value) : Eval Environment :=
  fun m =>
    let (env', store) := env.define m.store name v
    .ok env' { m with store }

/-- The value of a local variable, if the name is one. -/
def local? (env : Environment) (name : String) : Eval (Option Value) :=
  fun m => .ok (env.get? m.store name) m

/-- The value of an attribute of `self`, if the name is one. -/
def attribute? (env : Environment) (name : String) : Eval (Option Value) :=
  fun m => .ok ((env.self.object? m.store).bind (·.get? name)) m

/-- Assigns to a local variable or, failing that, to an attribute of `self`. -/
def assign (env : Environment) (name : String) (v : Value) (position : Position) : Eval Unit :=
  fun m =>
    match env.place? name with
    | some place => .ok () { m with store := m.store.setCell place v }
    | none =>
      match env.self with
      | .object place =>
        if (m.store.object? place).any (·.blueprint.hasAttribute name) then
          setField place name v m
        else broken s!"assignment to unknown name {name}" position m
      | _ => broken s!"assignment to unknown name {name}" position m

/-- Evaluates the body of a call, which counts as long as it lasts. -/
def withinCall {α : Type} (body : Eval α) : Eval α :=
  fun m =>
    match body { m with callDepth := m.callDepth + 1 } with
    | .ok a m' => .ok a { m' with callDepth := m'.callDepth - 1 }
    | .error h m' => .error h { m' with callDepth := m'.callDepth - 1 }

/-- Runs the initialisation of an object of the class, which is under construction meanwhile. -/
def withinConstruction {α : Type} (className : String) (body : Eval α) : Eval α :=
  fun m =>
    match body { m with constructing := className :: m.constructing } with
    | .ok a m' => .ok a { m' with constructing := m'.constructing.tail }
    | .error h m' => .error h { m' with constructing := m'.constructing.tail }

end Eval

end CoolLang
