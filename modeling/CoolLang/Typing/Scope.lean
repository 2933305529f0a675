/-!
# Scopes

The types of the local names in nested frames, the innermost first.
-/

namespace CoolLang

structure Scope where
  frames : List (List (String × String))
deriving DecidableEq

namespace Scope

def empty : Scope := ⟨[]⟩

def push (s : Scope) : Scope := ⟨[] :: s.frames⟩

/-- Drops the innermost frame, if there is one. -/
def pop (s : Scope) : Scope := ⟨s.frames.tail⟩

/-- Declares a name in the innermost frame; a scope without frames gets its first. -/
def declare (s : Scope) (name typeName : String) : Scope :=
  match s.frames with
  | [] => ⟨[[(name, typeName)]]⟩
  | frame :: outer => ⟨((name, typeName) :: frame) :: outer⟩

/-- The type of a name, by its innermost declaration. -/
def typeOf? (s : Scope) (name : String) : Option String :=
  s.frames.findSome? (·.lookup name)

@[simp] theorem pop_push (s : Scope) : s.push.pop = s := rfl

@[simp] theorem typeOf?_push (s : Scope) (name : String) :
    s.push.typeOf? name = s.typeOf? name := rfl

theorem typeOf?_declare_self (s : Scope) (name typeName : String) :
    (s.declare name typeName).typeOf? name = some typeName := by
  unfold declare
  split <;> simp [typeOf?]

theorem typeOf?_declare_of_ne (s : Scope) {name other : String} (typeName : String)
    (h : other ≠ name) : (s.declare name typeName).typeOf? other = s.typeOf? other := by
  have hb : (other == name) = false := beq_false_of_ne h
  unfold declare
  split <;> rename_i hs <;>
    simp [typeOf?, hs, List.findSome?_cons, List.lookup_cons, hb]

end Scope

end CoolLang
