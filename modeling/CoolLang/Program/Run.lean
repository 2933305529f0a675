import CoolLang.Declaration.Parser
import CoolLang.Evaluation.Expression
import CoolLang.Hierarchy.Validation
import CoolLang.Program.Settings
import CoolLang.Typing.Class

/-!
# Runs of programs

A source is read, its class graph is validated, its types are checked and, if nothing fatal was
found on the way, it is evaluated.
-/

namespace CoolLang

/-- What a program returned, apart from the store of its run. -/
inductive ReturnValue where
  | int (n : Int64)
  | str (s : String)
  | bool (b : Bool)
  | void
  | object (className : String)
deriving DecidableEq

namespace ReturnValue

def ofValue (s : Store) : Value → ReturnValue
  | .int n => .int n
  | .str text => .str text
  | .bool b => .bool b
  | .void => .void
  | v@(.object _) => .object ((v.className? s).getD "")

def render : ReturnValue → String
  | int n => Text.decimal n
  | str s => Text.quote s
  | bool b => if b then "true" else "false"
  | void => "void"
  | object className => s!"<{className}>"

end ReturnValue

structure RunResult where
  succeeded : Bool
  /-- Everything the program wrote, up to a fault. -/
  output : String
  /-- Everything that was found, warnings included. -/
  diagnostics : List Diagnostic
  /-- What the program returned, if it came to its end. -/
  value? : Option ReturnValue
  /-- What the program left of its input. -/
  unread : Input

namespace RunResult

def failed (diagnostics : List Diagnostic) (output : String) (unread : Input) : RunResult :=
  ⟨false, output, diagnostics, none, unread⟩

/-- The result of a run that was refused before its evaluation. -/
def refused (diagnostics : List Diagnostic) (input : Input) : RunResult :=
  failed diagnostics "" input

end RunResult

def Program.ofHierarchy (h : Hierarchy) (settings : Settings) : Program where
  classes := .ofHierarchy h
  maxCallDepth := settings.maxCallDepth
  maxConstructionDepth := settings.maxConstructionDepth

/-- The evaluation of a program, after the given warnings. It has no result if the fuel is used
up. -/
def evaluate (fuel : Nat) (h : Hierarchy) (warnings : List Diagnostic) (settings : Settings)
    (input : Input) : Option RunResult :=
  match Eval.program (.ofHierarchy h settings) fuel (.initial h input) with
  | .ok v m => some ⟨true, m.output, warnings, some (.ofValue m.store v), m.input⟩
  | .error (.fault d) m => some (.failed (warnings ++ [d]) m.output m.input)
  | .error .outOfFuel _ => none

/-- A run with the given fuel. It has no result if the fuel is used up. -/
def runWith (fuel : Nat) (source : String) (settings : Settings) (input : Input) :
    Option RunResult :=
  match readProgram source settings.sourceName with
  | .error d => some (.refused [d] input)
  | .ok classes =>
    let (h, violations) := Hierarchy.ofProgram classes
    if violations.any (·.isFatal) then some (.refused violations input)
    else
      let diagnostics := violations ++ h.typeCheck
      if diagnostics.any (·.isFatal) then some (.refused diagnostics input)
      else evaluate fuel h diagnostics settings input

/-- Fuel for more steps than a run can take in practice. -/
def ampleFuel : Nat := Nat.pow 2 62

def run (source : String) (settings : Settings) (input : Input) : Option RunResult :=
  runWith ampleFuel source settings input

end CoolLang
