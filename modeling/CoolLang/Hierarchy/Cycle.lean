import CoolLang.Hierarchy.Basic

/-!
# Cycles of inheritance

From each class in turn the parents are followed. A walk that comes back to a class it has passed
has found a cycle; one that meets a class passed by an earlier walk can find nothing new.
-/

namespace CoolLang.Hierarchy

/-- The parent, if it is a known class. -/
def knownParent? (h : Hierarchy) (name : String) : Option String :=
  (h.parent? name).filter h.contains

/-- Follows parents from `current` for at most `n` classes. `path` holds the classes of this walk
in the order passed, `done` those of earlier walks. Yields the whole path, and the part of it that
forms a cycle. -/
def walk (h : Hierarchy) (done : List String) :
    Nat → List String → Option String → List String × List String
  | 0, path, _ => (path, [])
  | _ + 1, path, none => (path, [])
  | n + 1, path, some name =>
    if done.contains name then (path, [])
    else if path.contains name then (path, path.dropWhile (· != name))
    else h.walk done n (path ++ [name]) (h.knownParent? name)

/-- The cycles that walks from the given classes find. -/
def cyclesFrom (h : Hierarchy) (done : List String) : List ClassInfo → List String
  | [] => []
  | c :: cs =>
    let (path, cycle) := h.walk done (h.classes.length + 1) [] (some c.name)
    cycle ++ h.cyclesFrom (done ++ path) cs

/-- The names of the classes that lie on a cycle of inheritance. -/
def cyclic (h : Hierarchy) : List String :=
  h.cyclesFrom [] h.classes

end CoolLang.Hierarchy
