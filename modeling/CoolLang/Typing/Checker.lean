import CoolLang.Hierarchy.Conformance
import CoolLang.Typing.Scope

/-!
# The state of a type check

A check knows the class whose features it is looking at and the local names in scope, and it keeps a
log of what it has found. It never stops early: where a type cannot be determined it goes on with
the root class.
-/

namespace CoolLang

structure Checker where
  /-- What `SELF_TYPE` means here. -/
  currentClass : String
  scope : Scope
  log : List Diagnostic

def Checker.initial : Checker := ⟨ClassName.object, .empty, []⟩

abbrev Check := StateM Checker

namespace Check

def currentClass : Check String :=
  fun s => (s.currentClass, s)

def report (cause : Cause) (position : Position) : Check Unit :=
  fun s => ((), { s with log := s.log ++ [⟨cause, position⟩] })

def modifyScope (f : Scope → Scope) : Check Unit :=
  fun s => ((), { s with scope := f s.scope })

/-- The class that a declared type means. -/
def resolve (typeName : String) : Check String :=
  fun s => (if typeName = ClassName.selfType then s.currentClass else typeName, s)

/-- The class that a declared type means. An unknown type is reported. -/
def declaredType (h : Hierarchy) (typeName : String) (position : Position) : Check String := do
  if typeName = ClassName.selfType || h.contains typeName then resolve typeName
  else
    report (.unknownType typeName) position
    return ClassName.object

/-- As `declaredType`, where `SELF_TYPE` may not stand. -/
def declaredClass (h : Hierarchy) (typeName context : String) (position : Position) :
    Check String := do
  if typeName = ClassName.selfType then
    report (.selfTypeNotAllowed context) position
    return ClassName.object
  else declaredType h typeName position

def requireConforms (h : Hierarchy) (received expected context : String) (position : Position) :
    Check Unit :=
  if h.conforms received expected then pure ()
  else report (.typeMismatch context expected received) position

def requireExact (received expected context : String) (position : Position) : Check Unit :=
  if received = expected then pure ()
  else report (.typeMismatch context expected received) position

/-- No name that a program introduces may be `self`. -/
def requireBindable (name usage : String) (position : Position) : Check Unit :=
  if name = "self" then report (.illegalSelfBinding usage) position else pure ()

end Check

end CoolLang
