import CoolLang.Declaration.Basic
import CoolLang.Diagnostic.Basic

/-!
# Classes

What is known of a class once its declaration has been read: its parent by name, its attributes in
order and its methods, each name once.
-/

namespace CoolLang

namespace ClassName

def object : String := "Object"
def io : String := "IO"
def int : String := "Int"
def string : String := "String"
def bool : String := "Bool"

/-- The type that stands for the class of `self`. -/
def selfType : String := "SELF_TYPE"

/-- The class that a run starts from. -/
def mainClass : String := "Main"

def builtins : List String := [object, io, int, string, bool]

/-- The built-in classes that no class may inherit from. -/
def finals : List String := [int, string, bool]

/-- Whether no class of a program may take the name. -/
def isReserved (name : String) : Bool :=
  builtins.contains name || name == selfType

end ClassName

/-- The method that a run starts with. -/
def mainMethod : String := "main"

structure Parameter where
  name : String
  typeName : String
deriving DecidableEq

structure Method where
  name : String
  returnType : String
  formals : List Parameter
  body : Expr
  span : Span

def Method.arity (m : Method) : Nat := m.formals.length

/-- The operation that the method performs, if it belongs to a built-in class. -/
def Method.primitive? (m : Method) : Option Primitive :=
  match m.body with
  | .primitive operation _ => some operation
  | _ => none

structure Attribute where
  name : String
  typeName : String
  init : Option Expr
  /-- The place among the attributes of the class itself. -/
  index : Nat
  span : Span

structure ClassInfo where
  name : String
  /-- Every class but the root has a parent. -/
  parent : Option String
  attributes : List Attribute
  methods : List Method
  span : Span

namespace ClassInfo

def method? (c : ClassInfo) (name : String) : Option Method :=
  c.methods.find? (·.name == name)

def attribute? (c : ClassInfo) (name : String) : Option Attribute :=
  c.attributes.find? (·.name == name)

/-- Keeps the first formal of each name and complains about the others. -/
def formalsOf (method : String) (seen : List String) :
    List Formal → List Parameter × List Diagnostic
  | [] => ([], [])
  | f :: fs =>
    if seen.contains f.name then
      let (kept, complaints) := formalsOf method seen fs
      (kept, ⟨.duplicateFormal method f.name, f.span.start⟩ :: complaints)
    else
      let (kept, complaints) := formalsOf method (f.name :: seen) fs
      (⟨f.name, f.typeName⟩ :: kept, complaints)

/-- Keeps the first method of each name and complains about the others. -/
def methodsOf (owner : String) (seen : List String) :
    List MethodDecl → List Method × List Diagnostic
  | [] => ([], [])
  | m :: ms =>
    if seen.contains m.name then
      let (kept, complaints) := methodsOf owner seen ms
      (kept, ⟨.duplicateMethod owner m.name, m.span.start⟩ :: complaints)
    else
      let (formals, own) := formalsOf m.name [] m.formals
      let (kept, complaints) := methodsOf owner (m.name :: seen) ms
      (⟨m.name, m.returnType, formals, m.body, m.span⟩ :: kept, own ++ complaints)

/-- Keeps the first attribute of each name and complains about the others; the first one kept has
the given index. -/
def attributesOf (owner : String) (seen : List String) (index : Nat) :
    List AttributeDecl → List Attribute × List Diagnostic
  | [] => ([], [])
  | a :: as =>
    if seen.contains a.name then
      let (kept, complaints) := attributesOf owner seen index as
      (kept, ⟨.duplicateAttribute owner a.name, a.span.start⟩ :: complaints)
    else
      let (kept, complaints) := attributesOf owner (a.name :: seen) (index + 1) as
      (⟨a.name, a.typeName, a.init, index, a.span⟩ :: kept, complaints)

/-- The class that a declaration describes, and the complaints about names it declares twice. -/
def ofDecl (d : ClassDecl) : ClassInfo × List Diagnostic :=
  let (attributes, attributeComplaints) := attributesOf d.name [] 0 d.attributes
  let (methods, methodComplaints) := methodsOf d.name [] d.methods
  (⟨d.name, some (d.parent.getD ClassName.object), attributes, methods, d.span⟩,
    attributeComplaints ++ methodComplaints)

/-- The order of declaration: by line, by column, then by name. -/
def declaredBefore (m n : Method) : Bool :=
  let p := m.span.start
  let q := n.span.start
  p.line < q.line ||
    (p.line == q.line &&
      (p.column < q.column || (p.column == q.column && m.name ≤ n.name)))

/-- The methods in the order of their declarations. -/
def methodsInOrder (c : ClassInfo) : List Method :=
  c.methods.mergeSort declaredBefore

end ClassInfo

end CoolLang
