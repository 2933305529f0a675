import CoolLang.Evaluation.Machine

/-!
# The operations of the built-in classes
-/

namespace CoolLang

namespace Primitive

/-- The sum of two numbers, or the bound of all numbers that it lies beyond. -/
def cappedSum (a b : Int64) : Int64 :=
  Int64.ofInt (max Int64.minValue.toInt (min (a.toInt + b.toInt) Int64.maxValue.toInt))

/-- The part of a text of `length` characters from the character `start` on, if it has them. -/
def substring? (text : String) (start length : Int64) : Option String :=
  if start < 0 ∨ length < 0 ∨ cappedSum start length > Int64.ofNat text.length then none
  else some (String.ofList ((text.toList.drop start.toNatClampNeg).take length.toNatClampNeg))

/-- The next line of the input, if there is one. -/
def nextLine? (position : Position) : Eval (Option String) := do
  match ← Eval.readLine with
  | .text line => return some line
  | .endOfInput => return none
  | .malformed =>
    Eval.broken "failed to read input: stream did not contain valid UTF-8" position

/-- The number on a line, or zero if the line is not a number. -/
def numberOn (line : String) : Int64 :=
  (Text.int64? (Text.trim line.toList)).getD 0

/-- Performs an operation on a receiver. Operands of the wrong kind are a fault. -/
def perform (operation : Primitive) (receiver : Value) (arguments : List Value)
    (position : Position) : Eval Value := do
  match operation, receiver, arguments with
  | .abort, _, [] =>
    let owner ← Eval.className? receiver
    Eval.fault (.abort (owner.getD "")) position
  | .typeName, _, [] =>
    let owner ← Eval.className? receiver
    return .str (owner.getD "")
  | .copy, _, [] => Eval.copy receiver
  | .outString, _, [.str text] =>
    Eval.write text
    return receiver
  | .outInt, _, [.int n] =>
    Eval.write (Text.decimal n)
    return receiver
  | .inString, _, [] =>
    let line ← nextLine? position
    return .str (line.getD "")
  | .inInt, _, [] =>
    let line ← nextLine? position
    return .int ((line.map numberOn).getD 0)
  | .length, .str text, [] => return .int (Int64.ofNat text.length)
  | .concat, .str text, [.str suffix] => return .str (text ++ suffix)
  | .substr, .str text, [.int start, .int size] =>
    match substring? text start size with
    | some part => return .str part
    | none => Eval.fault (.substringOutOfRange start size text.length) position
  | _, _, _ =>
    let shown ← Eval.render receiver
    Eval.broken
      s!"built-in {operation.name} called on {shown} with {arguments.length} argument(s)" position

end Primitive

end CoolLang
