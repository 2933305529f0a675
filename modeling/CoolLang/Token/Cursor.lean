import CoolLang.Source.Position

/-!
# Cursors

A cursor stands between two characters of a source: it holds the text still to be read and the
position of its first character.
-/

namespace CoolLang

structure Cursor where
  rest : List Char
  position : Position
deriving DecidableEq

namespace Cursor

def ofSource (source file : String) : Cursor := ⟨source.toList, .first file⟩

/-- The cursor moved forward by `n` characters, or to the end. -/
def drop (c : Cursor) (n : Nat) : Cursor :=
  ⟨c.rest.drop n, c.position.after (c.rest.take n)⟩

/-- How many characters lie wholly within the first `bytes` bytes of a text. -/
def charsWithin : Nat → List Char → Nat
  | _, [] => 0
  | bytes, c :: cs =>
    if c.utf8Size ≤ bytes then charsWithin (bytes - c.utf8Size) cs + 1 else 0

/-- The cursor moved forward by `n` bytes of the encoded source, or to the end. -/
def dropBytes (c : Cursor) (n : Nat) : Cursor :=
  c.drop (charsWithin n c.rest)

@[simp] theorem drop_zero (c : Cursor) : c.drop 0 = c := rfl

theorem drop_add (c : Cursor) (m n : Nat) : c.drop (m + n) = (c.drop m).drop n := by
  simp only [drop, List.drop_drop, ← Position.after_append, Cursor.mk.injEq, true_and]
  rw [← List.take_add]

end Cursor

end CoolLang
