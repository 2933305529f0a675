import CoolLang.Hierarchy.Cycle

/-!
# From declarations to a hierarchy

All classes of a program are registered, then the graph of parents is validated. Every violation
is reported; a hierarchy without violations is a tree.
-/

namespace CoolLang.Hierarchy

/-- What became of one declaration. -/
structure Registration where
  /-- Complaints about what the class declares. -/
  complaints : List Diagnostic
  /-- Why the class was refused, if it was. -/
  refusal : Option Diagnostic

/-- Registers the classes in order. A refused class leaves the hierarchy as it was. -/
def registerAll (h : Hierarchy) : List ClassDecl → Hierarchy × List Registration
  | [] => (h, [])
  | d :: ds =>
    let (info, complaints) := ClassInfo.ofDecl d
    match h.register info with
    | .ok h' =>
      let (final, registrations) := h'.registerAll ds
      (final, ⟨complaints, none⟩ :: registrations)
    | .error refusal =>
      let (final, registrations) := h.registerAll ds
      (final, ⟨complaints, some refusal⟩ :: registrations)

def Registration.diagnostics (r : Registration) : List Diagnostic :=
  r.complaints ++ r.refusal.toList

/-- Every parent is known and may be inherited from. -/
def parentViolation? (h : Hierarchy) (c : ClassInfo) : Option Diagnostic :=
  match c.parent with
  | none => none
  | some parent =>
    if ClassName.finals.contains parent || parent == ClassName.selfType then
      some ⟨.illegalInheritance c.name parent, c.span.start⟩
    else if !h.contains parent then some ⟨.undefinedParent c.name parent, c.span.start⟩
    else none

def cycleViolation (h : Hierarchy) (name : String) : Diagnostic :=
  ⟨.inheritanceCycle name, ((h.find? name).map (·.span.start)).getD .nowhere⟩

/-- Whether the ancestors of a class lead to the root. -/
def reachesRoot (h : Hierarchy) (name : String) : Bool :=
  (h.ancestors name).getLast?.any (·.name == ClassName.object)

/-- There is a class to start from, and it has a method without arguments to start with. The method
is only looked for where inheritance is sound. -/
def mainViolation? (h : Hierarchy) : Option Diagnostic :=
  match h.find? ClassName.mainClass with
  | none => some ⟨.missingMainClass, .nowhere⟩
  | some main =>
    if h.reachesRoot ClassName.mainClass then
      match h.findMethod? ClassName.mainClass mainMethod with
      | none => some ⟨.missingMainMethod, main.span.start⟩
      | some (_, method) =>
        if method.arity = 0 then none
        else some ⟨.mainMethodHasArguments method.arity, method.span.start⟩
    else none

/-- The violations of the rules on inheritance and on the class to start from. -/
def violations (h : Hierarchy) : List Diagnostic :=
  h.userClasses.filterMap h.parentViolation? ++ h.cyclic.map h.cycleViolation ++
    h.mainViolation?.toList

/-- The hierarchy of a program, and everything that is wrong with it. -/
def ofProgram (program : List ClassDecl) : Hierarchy × List Diagnostic :=
  let (h, registrations) := initial.registerAll program
  (h, registrations.flatMap (·.diagnostics) ++ h.violations)

end CoolLang.Hierarchy
