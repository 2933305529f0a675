import CoolLang.Hierarchy.Basic

/-!
# Blueprints

What a run needs to know of a class: its ancestors, in which methods are looked up, and the layout
of its objects.
-/

namespace CoolLang

structure Blueprint where
  name : String
  /-- The class itself first, the root last. -/
  ancestors : List ClassInfo
  /-- The attributes of an object, those of the root first. -/
  layout : List Attribute

namespace Blueprint

/-- Adds the attributes whose names are new. -/
def extendLayout (layout attributes : List Attribute) : List Attribute :=
  attributes.foldl (fun l a => if l.any (·.name == a.name) then l else l ++ [a]) layout

/-- The attributes along a chain of ancestors, from its end. -/
def layoutOf (ancestors : List ClassInfo) : List Attribute :=
  ancestors.reverse.foldl (fun layout c => extendLayout layout c.attributes) []

def ofClass (h : Hierarchy) (name : String) : Blueprint :=
  let ancestors := h.ancestors name
  ⟨name, ancestors, layoutOf ancestors⟩

/-- How many steps up the ancestor is, if it is one. -/
def distance? (b : Blueprint) (ancestor : String) : Option Nat :=
  b.ancestors.findIdx? (·.name == ancestor)

/-- The nearest method with the name that takes so many arguments. -/
def findMethod? (b : Blueprint) (name : String) (arity : Nat) : Option Method :=
  b.ancestors.findSome? fun c => (c.method? name).filter (·.arity == arity)

def hasAttribute (b : Blueprint) (name : String) : Bool :=
  b.layout.any (·.name == name)

end Blueprint

/-- The blueprints of all classes of a hierarchy. -/
structure ClassTable where
  blueprints : List Blueprint

namespace ClassTable

def ofHierarchy (h : Hierarchy) : ClassTable :=
  ⟨h.classes.map fun c => Blueprint.ofClass h c.name⟩

def find? (t : ClassTable) (name : String) : Option Blueprint :=
  t.blueprints.find? (·.name == name)

end ClassTable

end CoolLang
