import CoolLang.Expr.Basic

/-!
# Declarations
-/

namespace CoolLang

structure Formal where
  name : String
  typeName : String
  span : Span
deriving DecidableEq

structure AttributeDecl where
  name : String
  typeName : String
  init : Option Expr
  span : Span

structure MethodDecl where
  name : String
  formals : List Formal
  returnType : String
  body : Expr
  span : Span

inductive Feature where
  | attr (declaration : AttributeDecl)
  | method (declaration : MethodDecl)

structure ClassDecl where
  name : String
  parent : Option String
  features : List Feature
  span : Span

namespace ClassDecl

def attributes (c : ClassDecl) : List AttributeDecl :=
  c.features.filterMap fun
    | .attr a => some a
    | .method _ => none

def methods (c : ClassDecl) : List MethodDecl :=
  c.features.filterMap fun
    | .attr _ => none
    | .method m => some m

end ClassDecl

end CoolLang
