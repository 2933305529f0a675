import CoolLang.Object.Store

/-!
# Environments

What names mean inside a method: `self`, and the cells of the local variables, the innermost first.
-/

namespace CoolLang

structure Environment where
  self : Value
  locals : List (String × Nat)
deriving DecidableEq

namespace Environment

def ofSelf (self : Value) : Environment := ⟨self, []⟩

/-- The environment with a name bound to a cell, which hides an outer binding of the name. -/
def bind (env : Environment) (name : String) (place : Nat) : Environment :=
  { env with locals := (name, place) :: env.locals }

/-- Binds a name to a new cell that holds the value. -/
def define (env : Environment) (s : Store) (name : String) (value : Value) :
    Environment × Store :=
  (env.bind name s.cells.size, s.addCell value)

def place? (env : Environment) (name : String) : Option Nat :=
  env.locals.lookup name

def get? (env : Environment) (s : Store) (name : String) : Option Value :=
  (env.place? name).bind s.cell?

/-- The store after an assignment to a local variable, if the name is one. -/
def assign? (env : Environment) (s : Store) (name : String) (value : Value) : Option Store :=
  (env.place? name).map fun place => s.setCell place value

@[simp] theorem place?_bind_self (env : Environment) (name : String) (place : Nat) :
    (env.bind name place).place? name = some place := by
  simp [place?, bind]

theorem place?_bind_of_ne (env : Environment) {name other : String} (place : Nat)
    (h : other ≠ name) : (env.bind name place).place? other = env.place? other := by
  have hb : (other == name) = false := beq_false_of_ne h
  simp [place?, bind, List.lookup_cons, hb]

theorem get?_of_place?_eq_none {env : Environment} {name : String} (s : Store)
    (h : env.place? name = none) : env.get? s name = none := by
  rw [get?, h]
  rfl

/-- A name that was just defined has the value it was given. -/
theorem get?_define_self (env : Environment) (s : Store) (name : String) (v : Value) :
    (env.define s name v).1.get? (env.define s name v).2 name = some v := by
  simp [get?, define]

end Environment

end CoolLang
