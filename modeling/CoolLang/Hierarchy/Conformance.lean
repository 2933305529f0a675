import CoolLang.Hierarchy.Basic

/-!
# Conformance

A type conforms to itself, to its ancestors and to the root. Two types are joined at the nearest
ancestor they share.
-/

namespace CoolLang.Hierarchy

def conforms (h : Hierarchy) (sub super : String) : Bool :=
  sub == super || super == ClassName.object || (h.ancestors sub).any (·.name == super)

def join (h : Hierarchy) (a b : String) : String :=
  if a = b then a
  else
    let chain := (h.ancestors a).map (·.name)
    match (h.ancestors b).find? fun c => chain.contains c.name with
    | some c => c.name
    | none => ClassName.object

end CoolLang.Hierarchy
