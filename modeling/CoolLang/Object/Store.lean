import CoolLang.Object.Blueprint
import CoolLang.Text.Numeral

/-!
# Values and the store

Numbers, strings and truth values are values themselves; an object is known by its place in the
store. The store also holds the cells of local variables.
-/

namespace CoolLang

inductive Value where
  | int (n : Int64)
  | str (s : String)
  | bool (b : Bool)
  | void
  | object (place : Nat)
deriving DecidableEq

namespace Value

/-- What a variable of the type holds before anything is assigned to it. -/
def defaultFor (typeName : String) : Value :=
  if typeName = ClassName.int then .int 0
  else if typeName = ClassName.string then .str ""
  else if typeName = ClassName.bool then .bool false
  else .void

def isVoid : Value → Bool
  | .void => true
  | _ => false

end Value

/-- An object: the class it was made for and the values of its attributes. -/
structure Object where
  blueprint : Blueprint
  fields : List (String × Value)

namespace Object

/-- An object whose attributes all have their default values. -/
def ofBlueprint (b : Blueprint) : Object :=
  ⟨b, b.layout.map fun slot => (slot.name, .defaultFor slot.typeName)⟩

def get? (o : Object) (name : String) : Option Value :=
  o.fields.lookup name

/-- The fields with one of them replaced, or added at the end. -/
def setField (name : String) (value : Value) : List (String × Value) → List (String × Value)
  | [] => [(name, value)]
  | (n, v) :: fields =>
    if n = name then (n, value) :: fields else (n, v) :: setField name value fields

def set (o : Object) (name : String) (value : Value) : Object :=
  { o with fields := setField name value o.fields }

theorem get?_set_self (o : Object) (name : String) (v : Value) :
    (o.set name v).get? name = some v := by
  obtain ⟨b, fields⟩ := o
  simp only [get?, set]
  induction fields with
  | nil => simp [setField]
  | cons f fields ih =>
    obtain ⟨n, u⟩ := f
    by_cases h : n = name
    · simp [setField, h]
    · have hb : (name == n) = false := beq_false_of_ne (Ne.symm h)
      simp [setField, h, List.lookup_cons, hb, ih]

theorem get?_set_of_ne (o : Object) {name other : String} (v : Value) (h : other ≠ name) :
    (o.set name v).get? other = o.get? other := by
  obtain ⟨b, fields⟩ := o
  simp only [get?, set]
  have hb : (other == name) = false := beq_false_of_ne h
  induction fields with
  | nil => simp [setField, List.lookup_cons, hb]
  | cons f fields ih =>
    obtain ⟨n, u⟩ := f
    by_cases hn : n = name
    · simp [setField, hn, List.lookup_cons, hb]
    · simp only [setField, hn, if_false, List.lookup_cons, ih]

end Object

structure Store where
  objects : Array Object
  cells : Array Value

namespace Store

def empty : Store := ⟨#[], #[]⟩

def object? (s : Store) (place : Nat) : Option Object :=
  s.objects[place]?

def cell? (s : Store) (place : Nat) : Option Value :=
  s.cells[place]?

/-- Adds an object. Its place is the number of objects before. -/
def addObject (s : Store) (o : Object) : Store :=
  { s with objects := s.objects.push o }

/-- Adds a cell. Its place is the number of cells before. -/
def addCell (s : Store) (v : Value) : Store :=
  { s with cells := s.cells.push v }

def setCell (s : Store) (place : Nat) (v : Value) : Store :=
  { s with cells := s.cells.setIfInBounds place v }

def setField (s : Store) (place : Nat) (name : String) (v : Value) : Store :=
  { s with objects := s.objects.modify place (·.set name v) }

@[simp] theorem cell?_addCell_size (s : Store) (v : Value) :
    (s.addCell v).cell? s.cells.size = some v := by
  simp [cell?, addCell]

theorem cell?_addCell_of_lt (s : Store) {place : Nat} (v : Value) (h : place < s.cells.size) :
    (s.addCell v).cell? place = s.cell? place := by
  simp [cell?, addCell, Array.getElem?_push, Nat.ne_of_lt h]

theorem cell?_setCell_of_ne (s : Store) {place other : Nat} (v : Value) (h : other ≠ place) :
    (s.setCell place v).cell? other = s.cell? other := by
  simp [cell?, setCell, Ne.symm h]

theorem object?_addObject_of_some (s : Store) {place : Nat} {o : Object} (new : Object)
    (h : s.object? place = some o) : (s.addObject new).object? place = some o := by
  have hlt : place < s.objects.size := (Array.getElem?_eq_some_iff.mp h).1
  simp only [object?, addObject, Array.getElem?_push, Nat.ne_of_lt hlt, if_false]
  exact h

@[simp] theorem object?_addObject_size (s : Store) (new : Object) :
    (s.addObject new).object? s.objects.size = some new := by
  simp [object?, addObject]

theorem object?_setField_self (s : Store) {place : Nat} {o : Object} (name : String) (v : Value)
    (h : s.object? place = some o) :
    (s.setField place name v).object? place = some (o.set name v) := by
  have h' : s.objects[place]? = some o := h
  simp [object?, setField, Array.getElem?_modify, h']

theorem object?_setField_of_ne (s : Store) {place other : Nat} (name : String) (v : Value)
    (h : place ≠ other) : (s.setField place name v).object? other = s.object? other := by
  simp [object?, setField, Array.getElem?_modify, h]

end Store

namespace Value

/-- The object that a value stands for. -/
def object? (s : Store) : Value → Option Object
  | .object place => s.object? place
  | _ => none

/-- The class of a value; the void has none. -/
def className? (s : Store) : Value → Option String
  | .int _ => some ClassName.int
  | .str _ => some ClassName.string
  | .bool _ => some ClassName.bool
  | .void => none
  | .object place => (s.object? place).map (·.blueprint.name)

/-- The value in a message. -/
def render (s : Store) (v : Value) : String :=
  match v with
  | .int n => Text.decimal n
  | .str text => text
  | .bool b => if b then "true" else "false"
  | .void => "void"
  | .object _ => "<" ++ (v.className? s).getD "" ++ ">"

/-- A copy of a value. The copy of an object is a new object that shares what the old one's
attributes refer to. -/
def copy (s : Store) : Value → Value × Store
  | .object place =>
    match s.object? place with
    | some o => (.object s.objects.size, s.addObject o)
    | none => (.object place, s)
  | v => (v, s)

end Value

end CoolLang
