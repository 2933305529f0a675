import CoolLang.Typing.Expression

/-!
# Types of classes

The features of a class are checked in its own name: attributes first, then methods in the order of
their declarations.
-/

namespace CoolLang

/-- An attribute may not be declared again below the class that declares it. -/
def checkAttribute (h : Hierarchy) (c : ClassInfo) (a : Attribute) : Check Unit := do
  let position := a.span.start
  Check.requireBindable a.name "the name of an attribute" position
  let declared ← Check.declaredType h a.typeName position
  match (h.ancestors c.name).tail.find? fun ancestor => (ancestor.attribute? a.name).isSome with
  | some ancestor =>
    Check.report (.inheritedAttributeRedefined c.name a.name ancestor.name) position
  | none => pure ()
  checkInitializer h s!"initializer of attribute {a.name}" declared a.init

def checkFormal (h : Hierarchy) (position : Position) (formal : Parameter) : Check Unit := do
  Check.requireBindable formal.name "the name of a formal parameter" position
  let declared ← Check.declaredClass h formal.typeName s!"formal parameter {formal.name}" position
  Check.modifyScope (·.declare formal.name declared)

/-- Compares the formals of a method, counted from `index`, with those of the method that it
overrides. -/
def checkFormalsMatch (method ancestor : String) (position : Position) (index : Nat) :
    List Parameter → List Parameter → Check Unit
  | expected :: overridden, received :: formals => do
    if expected.typeName ≠ received.typeName then
      Check.report (.overrideParameterMismatch method ancestor index expected.typeName
        received.typeName) position
    checkFormalsMatch method ancestor position (index + 1) overridden formals
  | _, _ => return

/-- A method keeps the formal types of the nearest method it overrides. It is only warned about
when it returns another type. -/
def checkOverride (h : Hierarchy) (c : ClassInfo) (m : Method) : Check Unit := do
  match c.parent.bind fun parent => h.findMethod? parent m.name with
  | none => return
  | some (ancestor, overridden) =>
    let position := m.span.start
    if overridden.arity ≠ m.arity then
      Check.report (.overrideArityMismatch m.name ancestor overridden.arity m.arity) position
    else
      checkFormalsMatch m.name ancestor position 1 overridden.formals m.formals
      if overridden.returnType ≠ m.returnType then
        Check.report (.overrideReturnTypeChanged m.name ancestor overridden.returnType
          m.returnType) position

def checkMethod (h : Hierarchy) (c : ClassInfo) (m : Method) : Check Unit := do
  Check.modifyScope .push
  m.formals.forM (checkFormal h m.span.start)
  let declared ← Check.declaredType h m.returnType m.span.start
  checkOverride h c m
  let received ← checkExpr h m.body
  Check.modifyScope .pop
  Check.requireConforms h received declared s!"body of method {m.name}" m.body.span.start

def checkClass (h : Hierarchy) (c : ClassInfo) : Check Unit := do
  modify ({ · with currentClass := c.name })
  c.attributes.forM (checkAttribute h c)
  c.methodsInOrder.forM (checkMethod h c)

/-- Everything that is wrong with the types of a program, warnings included. -/
def Hierarchy.typeCheck (h : Hierarchy) : List Diagnostic :=
  ((h.userClasses.forM (checkClass h)).run Checker.initial).2.log

end CoolLang
