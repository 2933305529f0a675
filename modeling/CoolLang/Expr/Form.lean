import CoolLang.Token.Basic

/-!
# Forms of expressions

The first token of an expression decides its opening; a later token may continue the expression
read so far. How far a continuation reaches is settled by precedence.
-/

namespace CoolLang

/-- How tightly an operator binds, the loosest first. -/
inductive Precedence where
  | lowest
  | assignment
  | not
  | relational
  | additive
  | multiplicative
  | isVoid
  | negate
  | dispatch
  | primary
deriving DecidableEq

namespace Precedence

def all : List Precedence :=
  [lowest, assignment, not, relational, additive, multiplicative, isVoid, negate, dispatch,
   primary]

def level : Precedence → Nat
  | lowest => 0
  | assignment => 1
  | not => 2
  | relational => 3
  | additive => 4
  | multiplicative => 5
  | isVoid => 6
  | negate => 7
  | dispatch => 8
  | primary => 9

/-- Whether an operator of precedence `q` takes the operand between it and one of `p`. -/
def looserThan (p q : Precedence) : Bool :=
  p.level < q.level

def name : Precedence → String
  | lowest => "Default"
  | assignment => "Assignment"
  | not => "Not"
  | relational => "Relational"
  | additive => "Additive"
  | multiplicative => "Multiplicative"
  | isVoid => "IsVoid"
  | negate => "Negate"
  | dispatch => "Dispatch"
  | primary => "Primary"

def ofName? (s : String) : Option Precedence :=
  all.find? (·.name == s)

end Precedence

/-- The ways to begin an expression. -/
inductive Opening where
  | literal
  | identifier
  | grouping
  | operator
  | newObject
  | conditional
  | loop
  | block
  | letIn
  | caseOf
deriving DecidableEq

/-- The ways to go on behind an expression. -/
inductive Continuation where
  | binary
  | dispatch
  | qualifiedDispatch
deriving DecidableEq

/-- The forms that tokens announce. -/
structure FormTable where
  opening? : TokenKind → Option Opening
  continuation? : TokenKind → Option (Continuation × Precedence)

namespace FormTable

/-- The table that knows no form. -/
def empty : FormTable := ⟨fun _ => none, fun _ => none⟩

def cool : FormTable where
  opening?
    | .integer | .string | .trueKw | .falseKw => some .literal
    | .objectIdentifier => some .identifier
    | .openParen => some .grouping
    | .tilde | .notKw | .isVoidKw => some .operator
    | .newKw => some .newObject
    | .ifKw => some .conditional
    | .whileKw => some .loop
    | .openCurly => some .block
    | .letKw => some .letIn
    | .caseKw => some .caseOf
    | _ => none
  continuation?
    | .less | .lessEquals | .equals => some (.binary, .relational)
    | .plus | .dash => some (.binary, .additive)
    | .star | .slash => some (.binary, .multiplicative)
    | .dot => some (.dispatch, .dispatch)
    | .atSign => some (.qualifiedDispatch, .dispatch)
    | _ => none

end FormTable

end CoolLang
