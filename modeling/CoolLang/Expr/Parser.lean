import CoolLang.Expr.Basic
import CoolLang.Expr.Form
import CoolLang.Token.Stream

/-!
# Reading expressions

Each form has its reader, which is given the reader `expr` of the expressions inside it. An
expression is an opening followed by the continuations that bind tighter than its surroundings.
-/

namespace CoolLang

/-- A reader of expressions that takes operators binding tighter than a precedence. -/
abbrev ExprReader := Precedence → Parse Expr

namespace ExprReader

/-! ## Openings -/

/-- A number, a string or a truth value. -/
def literal : Parse Expr := do
  let token ← Parse.advance
  match token.kind with
  | .integer =>
    match Text.int64? token.text.toList with
    | some n => return .int n token.span
    | none => throw ⟨.numberOutOfRange token.text, token.span.start⟩
  | .string => return .str token.text token.span
  | .trueKw => return .bool true token.span
  | .falseKw => return .bool false token.span
  | _ => throw ⟨.unexpectedToken token.render, token.span.start⟩

def arguments (expr : ExprReader) : Parse (List Expr) :=
  Parse.parenthesized (expr .lowest)

/-- A name, `self`, an assignment, or a call on `self`. -/
def identifier (expr : ExprReader) : Parse Expr := do
  let token ← Parse.advance
  match ← Parse.currentKind with
  | .openParen =>
    let args ← arguments expr
    return .dispatch none none token.text args (← Parse.spanFrom token.span.start)
  | .assign =>
    let _ ← Parse.advance
    let value ← expr .lowest
    return .assign token.text value (← Parse.spanFrom token.span.start)
  | _ =>
    if token.text = "self" then return .self token.span
    else return .name token.text token.span

/-- An operator in front of its operand. -/
def operator (expr : ExprReader) : Parse Expr := do
  let token ← Parse.advance
  match token.kind with
  | .tilde =>
    let operand ← expr .negate
    return .unary .negate operand (← Parse.spanFrom token.span.start)
  | .notKw =>
    let operand ← expr .not
    return .unary .not operand (← Parse.spanFrom token.span.start)
  | .isVoidKw =>
    let operand ← expr .isVoid
    return .isVoid operand (← Parse.spanFrom token.span.start)
  | _ => throw ⟨.unexpectedToken token.render, token.span.start⟩

/-- An expression in parentheses. -/
def grouping (expr : ExprReader) : Parse Expr := do
  let _ ← Parse.advance
  let inner ← expr .lowest
  let _ ← Parse.expect .closeParen
  return inner

def newObject : Parse Expr := do
  let token ← Parse.advance
  let typeName ← Parse.expect .typeIdentifier
  return .new typeName.text (← Parse.spanFrom token.span.start)

def conditional (expr : ExprReader) : Parse Expr := do
  let token ← Parse.advance
  let condition ← expr .lowest
  let _ ← Parse.expect .thenKw
  let thenBranch ← expr .lowest
  let _ ← Parse.expect .elseKw
  let elseBranch ← expr .lowest
  let _ ← Parse.expect .fiKw
  return .cond condition thenBranch elseBranch (← Parse.spanFrom token.span.start)

def loop (expr : ExprReader) : Parse Expr := do
  let token ← Parse.advance
  let condition ← expr .lowest
  let _ ← Parse.expect .loopKw
  let body ← expr .lowest
  let _ ← Parse.expect .poolKw
  return .loop condition body (← Parse.spanFrom token.span.start)

/-- An expression with a semicolon behind it. -/
def statement (expr : ExprReader) : Parse Expr := do
  let e ← expr .lowest
  let _ ← Parse.expect .semicolon
  return e

def block (expr : ExprReader) : Parse Expr := do
  let token ← Parse.advance
  let body ← Parse.itemsUntil .closeCurly (statement expr)
  let _ ← Parse.expect .closeCurly
  return .block body (← Parse.spanFrom token.span.start)

/-- The initial value of a variable or an attribute, if one is written. -/
def initializer (expr : ExprReader) : Parse (Option Expr) := do
  if ← Parse.accept .assign then return some (← expr .lowest) else return none

def binding (expr : ExprReader) : Parse Binding := do
  let name ← Parse.expect .objectIdentifier
  let _ ← Parse.expect .colon
  let typeName ← Parse.expect .typeIdentifier
  let init ← initializer expr
  return ⟨name.text, typeName.text, init, ← Parse.spanFrom name.span.start⟩

def letIn (expr : ExprReader) : Parse Expr := do
  let token ← Parse.advance
  let bindings ← Parse.commaSeparated (binding expr)
  let _ ← Parse.expect .inKw
  let body ← expr .lowest
  return .letIn bindings body (← Parse.spanFrom token.span.start)

def branch (expr : ExprReader) : Parse Branch := do
  let name ← Parse.expect .objectIdentifier
  let _ ← Parse.expect .colon
  let typeName ← Parse.expect .typeIdentifier
  let _ ← Parse.expect .darrow
  let body ← statement expr
  return ⟨name.text, typeName.text, body, ← Parse.spanFrom name.span.start⟩

def caseOf (expr : ExprReader) : Parse Expr := do
  let token ← Parse.advance
  let scrutinee ← expr .lowest
  let _ ← Parse.expect .ofKw
  let branches ← Parse.itemsUntil .esacKw (branch expr)
  if branches.isEmpty then Parse.unexpectedBecause "case needs at least one branch"
  let _ ← Parse.expect .esacKw
  return .caseOf scrutinee branches (← Parse.spanFrom token.span.start)

/-- Reads the form that a token opens. The token is the current one. -/
def opening (expr : ExprReader) : Opening → Parse Expr
  | .literal => literal
  | .identifier => identifier expr
  | .grouping => grouping expr
  | .operator => operator expr
  | .newObject => newObject
  | .conditional => conditional expr
  | .loop => loop expr
  | .block => block expr
  | .letIn => letIn expr
  | .caseOf => caseOf expr

/-! ## Continuations -/

def binaryOp? : TokenKind → Option BinaryOp
  | .plus => some .plus
  | .dash => some .minus
  | .star => some .times
  | .slash => some .divide
  | .less => some .less
  | .lessEquals => some .lessEquals
  | .equals => some .equals
  | _ => none

def isComparison : TokenKind → Bool
  | .less | .lessEquals | .equals => true
  | _ => false

/-- An operator and its right operand. Comparisons do not associate. -/
def binary (expr : ExprReader) (power : Precedence) (left : Expr) : Parse Expr := do
  let token ← Parse.advance
  match binaryOp? token.kind with
  | none => throw ⟨.unexpectedToken token.render, token.span.start⟩
  | some op =>
    let right ← expr power
    if power = .relational ∧ isComparison (← Parse.currentKind) then
      Parse.unexpectedBecause "comparison operators cannot be chained"
    return .binary op left right ⟨left.span.start, right.span.stop⟩

def dispatch (expr : ExprReader) (left : Expr) : Parse Expr := do
  let _ ← Parse.expect .dot
  let method ← Parse.expect .objectIdentifier
  let args ← arguments expr
  return .dispatch (some left) none method.text args (← Parse.spanFrom left.span.start)

def qualifiedDispatch (expr : ExprReader) (left : Expr) : Parse Expr := do
  let _ ← Parse.expect .atSign
  let qualifier ← Parse.expect .typeIdentifier
  let _ ← Parse.expect .dot
  let method ← Parse.expect .objectIdentifier
  let args ← arguments expr
  return .dispatch (some left) (some qualifier.text) method.text args
    (← Parse.spanFrom left.span.start)

/-- Reads a continuation of `left` that binds with the given power. -/
def continuation (expr : ExprReader) (power : Precedence) (left : Expr) :
    Continuation → Parse Expr
  | .binary => binary expr power left
  | .dispatch => dispatch expr left
  | .qualifiedDispatch => qualifiedDispatch expr left

/-- Reads the continuations of `left` that bind tighter than `power`. -/
def continuations (table : FormTable) (expr : ExprReader) (power : Precedence) (left : Expr) :
    Parse Expr :=
  Parse.bounded fun bound => go bound left
where
  go (bound : Nat) (left : Expr) : Parse Expr := do
    match table.continuation? (← Parse.currentKind) with
    | none => return left
    | some (form, next) =>
      if power.looserThan next then
        match bound with
        | 0 => Parse.unexpected
        | n + 1 => go n (← continuation expr next left form)
      else return left

end ExprReader

/-- Reads an expression that nests at most `depth` deep. -/
def parseExprWithin (table : FormTable) : Nat → ExprReader
  | 0, _ => Parse.unexpected
  | depth + 1, power => do
    match table.opening? (← Parse.currentKind) with
    | none => Parse.unexpected
    | some form =>
      let left ← ExprReader.opening (parseExprWithin table depth) form
      ExprReader.continuations table (parseExprWithin table depth) power left

/-- Reads an expression. Each level of nesting takes a token, so the tokens left bound its depth. -/
def parseExpr (table : FormTable) : ExprReader := fun power =>
  Parse.bounded fun depth => parseExprWithin table depth power

/-- The expression that a whole token list spells. -/
def parseWholeExpr (tokens : List Token) (file : String) : Except Diagnostic Expr :=
  let reader : Parse Expr := do
    let e ← parseExpr .cool .lowest
    let _ ← Parse.expect .eof
    return e
  match reader (.ofTokens tokens file) with
  | .ok e _ => .ok e
  | .error d _ => .error d

end CoolLang
