import CoolLang.Source.Position
import CoolLang.Text.Numeral
import CoolLang.Text.Quoted

/-!
# Diagnostics

A diagnostic is a cause at a position. The cause fixes everything else that is reported: the code,
the severity, the wording and the advice.
-/

namespace CoolLang

/-- Why a program is refused, warned about or stopped. -/
inductive Cause where
  -- reading
  | unrecognisedToken (token : String)
  | unterminatedString
  | invalidStringCharacter (character : String)
  | unterminatedComment
  | unexpectedToken (token : String)
  | unexpectedTokenDetailed (token message : String)
  | numberOutOfRange (token : String)
  -- the class graph
  | duplicateClass (name : String)
  | builtinRedefinition (name : String)
  | undefinedParent (name parent : String)
  | illegalInheritance (name parent : String)
  | inheritanceCycle (name : String)
  | missingMainClass
  | missingMainMethod
  | mainMethodHasArguments (count : Nat)
  | duplicateMethod (owner method : String)
  | duplicateAttribute (owner attr : String)
  | duplicateFormal (method formal : String)
  -- typing
  | unknownType (name : String)
  | selfTypeNotAllowed (context : String)
  | inheritedAttributeRedefined (owner attr ancestor : String)
  | overrideArityMismatch (method ancestor : String) (expected received : Nat)
  | overrideParameterMismatch (method ancestor : String) (index : Nat) (expected received : String)
  | overrideReturnTypeChanged (method ancestor expected received : String)
  | illegalSelfBinding (usage : String)
  | variableNotDeclared (name : String)
  | typeMismatch (context expected received : String)
  | argumentTypeMismatch (method : String) (index : Nat) (expected received : String)
  | unexpectedArguments (method : String) (expected received : Nat)
  | undefinedMethod (owner method : String)
  | duplicateCaseBranch (name : String)
  -- evaluation
  | abort (owner : String)
  | divisionByZero
  | dispatchOnVoid (method : String)
  | caseOnVoid
  | noMatchingBranch (name : String)
  | substringOutOfRange (start length : Int64) (size : Nat)
  | circularInitialization (name : String)
  | constructionDepthExceeded (limit : Nat)
  | callDepthExceeded (limit : Nat)
  | internal (message : String)
deriving DecidableEq

inductive Severity where
  | error
  | warning
  | info
  | internal
deriving DecidableEq

def Severity.name : Severity → String
  | .error => "error"
  | .warning => "warning"
  | .info => "info"
  | .internal => "internal"

namespace Cause

/-- The stable name of the kind of cause. -/
def code : Cause → String
  | unrecognisedToken .. => "UnrecognisedToken"
  | unterminatedString => "UnterminatedString"
  | invalidStringCharacter .. => "InvalidStringCharacter"
  | unterminatedComment => "UnterminatedComment"
  | unexpectedToken .. => "UnexpectedToken"
  | unexpectedTokenDetailed .. => "UnexpectedTokenDetailed"
  | numberOutOfRange .. => "NumberParseError"
  | duplicateClass .. => "DuplicateClass"
  | builtinRedefinition .. => "BuiltinRedefinition"
  | undefinedParent .. => "UndefinedParent"
  | illegalInheritance .. => "IllegalInheritance"
  | inheritanceCycle .. => "InheritanceCycle"
  | missingMainClass => "MissingMainClass"
  | missingMainMethod => "MissingMainMethod"
  | mainMethodHasArguments .. => "MainMethodHasArguments"
  | duplicateMethod .. => "DuplicateMethod"
  | duplicateAttribute .. => "DuplicateAttribute"
  | duplicateFormal .. => "DuplicateFormal"
  | unknownType .. => "UnknownType"
  | selfTypeNotAllowed .. => "SelfTypeNotAllowed"
  | inheritedAttributeRedefined .. => "InheritedAttributeRedefined"
  | overrideArityMismatch .. => "OverrideArityMismatch"
  | overrideParameterMismatch .. => "OverrideParameterMismatch"
  | overrideReturnTypeChanged .. => "OverrideReturnTypeChanged"
  | illegalSelfBinding .. => "IllegalSelfBinding"
  | variableNotDeclared .. => "VariableNotDeclared"
  | typeMismatch .. => "TypeMatchError"
  | argumentTypeMismatch .. => "ArgumentTypeMatchError"
  | unexpectedArguments .. => "UnexpectedArguments"
  | undefinedMethod .. => "UndefinedMethod"
  | duplicateCaseBranch .. => "DuplicateCaseBranch"
  | abort .. => "Abort"
  | divisionByZero => "DivisionByZero"
  | dispatchOnVoid .. => "DispatchOnVoid"
  | caseOnVoid => "CaseOnVoid"
  | noMatchingBranch .. => "NoMatchingBranch"
  | substringOutOfRange .. => "SubstringOutOfRange"
  | circularInitialization .. => "CircularInitialization"
  | constructionDepthExceeded .. => "ConstructionDepthExceeded"
  | callDepthExceeded .. => "CallDepthExceeded"
  | internal .. => "Internal"

def severity : Cause → Severity
  | overrideReturnTypeChanged .. => .warning
  | internal .. => .internal
  | _ => .error

/-- Whether the cause fails the run. -/
def isFatal (c : Cause) : Bool :=
  match c.severity with
  | .error | .internal => true
  | .warning | .info => false

def message : Cause → String
  | unrecognisedToken t => s!"unrecognised token: {Text.quote t}"
  | unterminatedString => "unterminated string literal"
  | invalidStringCharacter c => s!"string literal contains an invalid character: {c}"
  | unterminatedComment => "unterminated comment"
  | unexpectedToken t => s!"unexpected token: {Text.quote t}"
  | unexpectedTokenDetailed t m => s!"unexpected token ({m}): {Text.quote t}"
  | numberOutOfRange t => s!"error parsing number: {Text.quote t}"
  | duplicateClass c => s!"class {c} is defined more than once"
  | builtinRedefinition c => s!"built-in class {c} cannot be redefined"
  | undefinedParent c p => s!"class {c} inherits from undefined class {p}"
  | illegalInheritance c p => s!"class {c} cannot inherit from {p}"
  | inheritanceCycle c =>
    s!"class {c}, or one of its ancestors, is part of an inheritance cycle"
  | missingMainClass => "program has no class Main"
  | missingMainMethod => "class Main has no method main"
  | mainMethodHasArguments n => s!"method Main.main must take no arguments, found {n}"
  | duplicateMethod c m => s!"method {m} is defined more than once in class {c}"
  | duplicateAttribute c a => s!"attribute {a} is defined more than once in class {c}"
  | duplicateFormal m f => s!"formal parameter {f} is declared more than once in method {m}"
  | unknownType t => s!"unknown type {t}"
  | selfTypeNotAllowed c => s!"SELF_TYPE is not allowed as the type of {c}"
  | inheritedAttributeRedefined c a anc =>
    s!"attribute {a} of class {c} is already defined by ancestor {anc}"
  | overrideArityMismatch m anc expected received =>
    s!"method {m} overrides {anc}.{m} with {received} parameters instead of {expected}"
  | overrideParameterMismatch m anc i expected received =>
    s!"parameter {i} of method {m} has type {received}, but {anc}.{m} declares {expected}"
  | overrideReturnTypeChanged m anc expected received =>
    s!"method {m} returns {received}, but overridden {anc}.{m} returns {expected}"
  | illegalSelfBinding usage => s!"'self' cannot be {usage}"
  | variableNotDeclared v => s!"undefined variable {v}"
  | typeMismatch c expected received =>
    s!"{c}: expected type {expected}, received {received}"
  | argumentTypeMismatch m i expected received =>
    s!"argument {i} of {m}: expected type {expected}, received {received}"
  | unexpectedArguments m expected received =>
    s!"method {m} expects {expected} arguments, received {received}"
  | undefinedMethod c m => s!"undefined method {m} in type {c}"
  | duplicateCaseBranch t => s!"type {t} appears in more than one case branch"
  | abort c => s!"abort called from class {c}"
  | divisionByZero => "division by zero"
  | dispatchOnVoid m => s!"dispatch of {m} on void"
  | caseOnVoid => "case on void"
  | noMatchingBranch c => s!"no case branch matches runtime type {c}"
  | substringOutOfRange start length size =>
    s!"substr({Text.decimal start}, {Text.decimal length}) is out of range " ++
      s!"for a string of length {size}"
  | circularInitialization c =>
    s!"circular initialization: class {c} is already under construction"
  | constructionDepthExceeded limit => s!"object construction nested deeper than {limit}"
  | callDepthExceeded limit => s!"method call depth exceeded {limit}"
  | internal m => s!"internal error: {m}"

/-- Advice on how to mend the program, for the causes that have some. -/
def tip? : Cause → Option String
  | unexpectedToken t => some s!"Unexpected token: `{t}`, did you miss a semicolon?"
  | numberOutOfRange t => some s!"Invalid number: `{t}`, is it above the integer limit?"
  | builtinRedefinition c => some s!"`{c}` is a built-in class, pick another name"
  | illegalInheritance _ p =>
    some s!"`{p}` is final, inherit from `Object` or another class instead"
  | missingMainClass =>
    some "Declare `class Main \x7b main(): Object \x7b ... \x7d; \x7d;`"
  | inheritedAttributeRedefined _ a _ => some s!"Attribute `{a}` cannot be shadowed, rename it"
  | variableNotDeclared v => some s!"Variable `{v}` not declared"
  | unexpectedArguments _ expected received =>
    some s!"Expected {expected} arguments, received {received}"
  | dispatchOnVoid m => some s!"Guard the call to `{m}` with `isvoid`"
  | circularInitialization c =>
    some s!"An attribute initializer of `{c}` creates another `{c}`"
  | _ => none

end Cause

structure Diagnostic where
  cause : Cause
  position : Position
deriving DecidableEq

namespace Diagnostic

/-- The heading under which a diagnostic is shown. -/
def headline (d : Diagnostic) : String :=
  s!"{d.cause.severity.name}[{d.cause.code}]: {d.cause.message}"

/-- The diagnostic on one line, its position first. -/
def summary (d : Diagnostic) : String :=
  s!"{d.position.render}: {d.headline}"

def isFatal (d : Diagnostic) : Bool :=
  d.cause.isFatal

end Diagnostic

end CoolLang
