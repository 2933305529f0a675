/-!
# Positions and spans

A position is a line and a column of a named source, both counted from one; columns count
characters. Line zero stands for no position at all. Both counters have 32 bits and start again at
zero behind the last number.
-/

namespace CoolLang

/-- The name of a source that was given none. -/
def unnamedSource : String := "<unknown>"

structure Position where
  line : UInt32
  column : UInt32
  file : String
deriving DecidableEq

namespace Position

/-- The place of something that was not read from a source. -/
def nowhere : Position := ⟨0, 0, unnamedSource⟩

/-- The place of the first character of a source. -/
def first (file : String) : Position := ⟨1, 1, file⟩

def isNowhere (p : Position) : Bool := p.line == 0

/-- The place right after the character `c` at `p`. -/
def next (p : Position) (c : Char) : Position :=
  if c = '\n' then { p with line := p.line + 1, column := 1 }
  else { p with column := p.column + 1 }

/-- The place right after the text `cs` that starts at `p`. -/
def after (p : Position) (cs : List Char) : Position :=
  cs.foldl next p

def render (p : Position) : String :=
  if p.isNowhere then unnamedSource else s!"{p.file}:{p.line}:{p.column}"

@[simp] theorem after_nil (p : Position) : p.after [] = p := rfl

@[simp] theorem after_cons (p : Position) (c : Char) (cs : List Char) :
    p.after (c :: cs) = (p.next c).after cs := rfl

theorem after_append (p : Position) (cs ds : List Char) :
    p.after (cs ++ ds) = (p.after cs).after ds := by
  simp [after, List.foldl_append]

@[simp] theorem file_next (p : Position) (c : Char) : (p.next c).file = p.file := by
  unfold next; split <;> rfl

@[simp] theorem file_after (p : Position) (cs : List Char) : (p.after cs).file = p.file := by
  induction cs generalizing p with
  | nil => rfl
  | cons c cs ih => simp [ih]

theorem line_after (p : Position) (cs : List Char) :
    (p.after cs).line = p.line + UInt32.ofNat (cs.count '\n') := by
  induction cs generalizing p with
  | nil => simp
  | cons c cs ih =>
    by_cases h : c = '\n'
    · simp [ih, next, h, UInt32.ofNat_add, UInt32.add_assoc, UInt32.add_comm 1]
    · simp [ih, next, h]

end Position

/-- The stretch of a source from `start` up to, not including, `stop`. -/
structure Span where
  start : Position
  stop : Position
deriving DecidableEq

/-- The span of something that was not read from a source. -/
def Span.nowhere : Span := ⟨.nowhere, .nowhere⟩

end CoolLang
