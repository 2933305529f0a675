import CoolLang.Declaration.Basic
import CoolLang.Expr.Parser
import CoolLang.Token.Lexer

/-!
# Reading declarations
-/

namespace CoolLang

namespace Parse

def formal : Parse Formal := do
  let name ← expect .objectIdentifier
  let _ ← expect .colon
  let typeName ← expect .typeIdentifier
  return ⟨name.text, typeName.text, ← spanFrom name.span.start⟩

def methodDecl (expr : ExprReader) : Parse MethodDecl := do
  let name ← expect .objectIdentifier
  let formals ← parenthesized formal
  let _ ← expect .colon
  let returnType ← expect .typeIdentifier
  let _ ← expect .openCurly
  let body ← expr .lowest
  let _ ← expect .closeCurly
  return ⟨name.text, formals, returnType.text, body, ← spanFrom name.span.start⟩

def attributeDecl (expr : ExprReader) : Parse AttributeDecl := do
  let name ← expect .objectIdentifier
  let _ ← expect .colon
  let typeName ← expect .typeIdentifier
  let init ← expr.initializer
  return ⟨name.text, typeName.text, init, ← spanFrom name.span.start⟩

/-- A feature is a method if a parenthesis follows its name. -/
def feature (expr : ExprReader) : Parse Feature := do
  if (← get).peekKind 1 = .openParen then return .method (← methodDecl expr)
  else return .attr (← attributeDecl expr)

/-- The parent that a class names, if it names one. -/
def parentClause : Parse (Option String) := do
  if ← accept .inheritsKw then return some (← expect .typeIdentifier).text
  else return none

def classDecl (expr : ExprReader) : Parse ClassDecl := do
  let start ← expect .classKw
  let name ← expect .typeIdentifier
  let parent ← parentClause
  let _ ← expect .openCurly
  let features ← itemsUntil .closeCurly do
    let f ← feature expr
    let _ ← expect .semicolon
    return f
  let _ ← expect .closeCurly
  return ⟨name.text, parent, features, ← spanFrom start.span.start⟩

def program (expr : ExprReader) : Parse (List ClassDecl) :=
  itemsUntil .eof do
    let c ← classDecl expr
    let _ ← expect .semicolon
    return c

end Parse

/-- The classes that a token list declares. -/
def parseProgram (tokens : List Token) (file : String) : Except Diagnostic (List ClassDecl) :=
  match Parse.program (parseExpr .cool) (.ofTokens tokens file) with
  | .ok classes _ => .ok classes
  | .error d _ => .error d

/-- The classes that a source declares. -/
def readProgram (source file : String) : Except Diagnostic (List ClassDecl) := do
  parseProgram (← tokenize source file) file

end CoolLang
