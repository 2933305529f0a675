import CoolLang.Hierarchy.Builtin

/-!
# Hierarchies

The known classes in the order of their registration, the built-in ones first. Parents are kept by
name, so a hierarchy may name parents that do not exist and may hold cycles.
-/

namespace CoolLang

structure Hierarchy where
  classes : List ClassInfo

namespace Hierarchy

/-- The hierarchy of the built-in classes. -/
def initial : Hierarchy := ⟨Builtin.classes⟩

def find? (h : Hierarchy) (name : String) : Option ClassInfo :=
  h.classes.find? (·.name == name)

def contains (h : Hierarchy) (name : String) : Bool :=
  (h.find? name).isSome

def parent? (h : Hierarchy) (name : String) : Option String :=
  (h.find? name).bind (·.parent)

/-- Adds a class at the end, unless its name is reserved or taken. -/
def register (h : Hierarchy) (c : ClassInfo) : Except Diagnostic Hierarchy :=
  if ClassName.isReserved c.name then .error ⟨.builtinRedefinition c.name, c.span.start⟩
  else if h.contains c.name then .error ⟨.duplicateClass c.name, c.span.start⟩
  else .ok ⟨h.classes ++ [c]⟩

/-- The classes of the program, without the built-in ones. -/
def userClasses (h : Hierarchy) : List ClassInfo :=
  h.classes.filter (!ClassName.isReserved ·.name)

/-- The class with the name and those reached from it over parents, at most `n` in all. -/
def lineage (h : Hierarchy) : Nat → String → List ClassInfo
  | 0, _ => []
  | n + 1, name =>
    match h.find? name with
    | none => []
    | some c =>
      match c.parent with
      | none => [c]
      | some parent => c :: h.lineage n parent

/-- The classes up to the first one whose name occurs a second time. -/
def untilRepeated (seen : List String) : List ClassInfo → List ClassInfo
  | [] => []
  | c :: cs => if seen.contains c.name then [] else c :: untilRepeated (c.name :: seen) cs

/-- The class with the name followed by its ancestors. The walk ends at the root, at a parent that
is not known, or before a class comes up again; so there is no need to look further than the
number of classes. -/
def ancestors (h : Hierarchy) (name : String) : List ClassInfo :=
  untilRepeated [] (h.lineage h.classes.length name)

/-- The nearest class at or above the given one that has the method, and the method. -/
def findMethod? (h : Hierarchy) (className method : String) : Option (String × Method) :=
  (h.ancestors className).findSome? fun c => (c.method? method).map (c.name, ·)

/-- The nearest class at or above the given one that has the attribute, and the attribute. -/
def findAttribute? (h : Hierarchy) (className name : String) : Option (String × Attribute) :=
  (h.ancestors className).findSome? fun c => (c.attribute? name).map (c.name, ·)

end Hierarchy

end CoolLang
