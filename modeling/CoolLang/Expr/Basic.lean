import CoolLang.Source.Position

/-!
# Expressions
-/

namespace CoolLang

inductive UnaryOp where
  | negate
  | not
deriving DecidableEq

def UnaryOp.symbol : UnaryOp → String
  | negate => "~"
  | not => "not"

inductive BinaryOp where
  | plus
  | minus
  | times
  | divide
  | less
  | lessEquals
  | equals
deriving DecidableEq

namespace BinaryOp

def symbol : BinaryOp → String
  | plus => "+"
  | minus => "-"
  | times => "*"
  | divide => "/"
  | less => "<"
  | lessEquals => "<="
  | equals => "="

/-- Whether the operator yields a number. -/
def isArithmetic : BinaryOp → Bool
  | plus | minus | times | divide => true
  | less | lessEquals | equals => false

end BinaryOp

/-- The operations that the methods of the built-in classes perform. -/
inductive Primitive where
  | abort
  | typeName
  | copy
  | outString
  | outInt
  | inString
  | inInt
  | length
  | concat
  | substr
deriving DecidableEq

namespace Primitive

def all : List Primitive :=
  [abort, typeName, copy, outString, outInt, inString, inInt, length, concat, substr]

/-- The name of the operation in messages. -/
def name : Primitive → String
  | abort => "Abort"
  | typeName => "TypeName"
  | copy => "Copy"
  | outString => "OutString"
  | outInt => "OutInt"
  | inString => "InString"
  | inInt => "InInt"
  | length => "Length"
  | concat => "Concat"
  | substr => "Substr"

def ofName? (s : String) : Option Primitive :=
  all.find? (·.name == s)

end Primitive

mutual

/-- An expression. Every node carries the span it was read from; parentheses leave no node. -/
inductive Expr where
  | int (value : Int64) (span : Span)
  | str (value : String) (span : Span)
  | bool (value : Bool) (span : Span)
  | self (span : Span)
  | name (name : String) (span : Span)
  | assign (name : String) (value : Expr) (span : Span)
  /-- A call of a method. Without a receiver it goes to `self`; with a qualifier the method is
  looked up from that class on. -/
  | dispatch (receiver : Option Expr) (qualifier : Option String) (method : String)
      (arguments : List Expr) (span : Span)
  | new (typeName : String) (span : Span)
  | cond (condition thenBranch elseBranch : Expr) (span : Span)
  | loop (condition body : Expr) (span : Span)
  | block (body : List Expr) (span : Span)
  | letIn (bindings : List Binding) (body : Expr) (span : Span)
  | caseOf (scrutinee : Expr) (branches : List Branch) (span : Span)
  | isVoid (operand : Expr) (span : Span)
  | unary (op : UnaryOp) (operand : Expr) (span : Span)
  | binary (op : BinaryOp) (left right : Expr) (span : Span)
  /-- The body of a method of a built-in class; no source spells it. -/
  | primitive (operation : Primitive) (span : Span)

/-- One variable of a `let`, with the value it starts from. -/
structure Binding where
  name : String
  typeName : String
  init : Option Expr
  span : Span

/-- One branch of a `case`. -/
structure Branch where
  name : String
  typeName : String
  body : Expr
  span : Span

end

def Expr.span : Expr → Span
  | int _ s | str _ s | bool _ s | self s | name _ s | assign _ _ s | dispatch _ _ _ _ s
  | new _ s | cond _ _ _ s | loop _ _ s | block _ s | letIn _ _ s | caseOf _ _ s | isVoid _ s
  | unary _ _ s | binary _ _ _ s | primitive _ s => s

end CoolLang
