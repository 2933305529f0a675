import CoolLang.Source.Position
import Mathlib.Data.List.Induction

/-!
# Lines and columns in 32 bits

The position behind a text tells how many line ends the text has and how many characters come after
the last of them. It counts both in 32 bits, so it tells them as they are if they have so many bits,
and modulo the range of the counters otherwise.
-/

namespace CoolLang.Position

/-! ## The place behind a text -/

/-- The line of what follows a text at the start of a source. -/
def lineBehind (text : List Char) : Nat :=
  1 + text.count '\n'

/-- The column of what follows a text at the start of a source. -/
def columnBehind (text : List Char) : Nat :=
  1 + (text.reverse.takeWhile (· != '\n')).length

/-- The place behind a text at the start of a source: lines are counted by the line ends passed, and
columns by the characters since the last of them. -/
def behind (file : String) (text : List Char) : Position :=
  ⟨.ofNat (lineBehind text), .ofNat (columnBehind text), file⟩

theorem lineBehind_append_singleton (text : List Char) (c : Char) :
    lineBehind (text ++ [c]) = lineBehind text + if c = '\n' then 1 else 0 := by
  by_cases hc : c = '\n'
  · simp [lineBehind, hc, Nat.add_assoc]
  · simp [lineBehind, hc]

theorem columnBehind_append_singleton (text : List Char) (c : Char) :
    columnBehind (text ++ [c]) = if c = '\n' then 1 else columnBehind text + 1 := by
  by_cases hc : c = '\n'
  · simp [columnBehind, hc]
  · simp [columnBehind, hc, Nat.add_assoc]

theorem after_first (file : String) (text : List Char) :
    (first file).after text = behind file text := by
  induction text using List.reverseRecOn with
  | nil => rfl
  | append_singleton text c ih =>
      rw [after_append, ih, after_cons, after_nil, next, behind, behind,
        lineBehind_append_singleton, columnBehind_append_singleton]
      split
      · rw [UInt32.ofNat_add]
        rfl
      · rw [Nat.add_zero, UInt32.ofNat_add]
        rfl

/-- Moving on over a text continues the count of lines and columns. -/
theorem after_behind (file : String) (before text : List Char) :
    (behind file before).after text = behind file (before ++ text) := by
  rw [← after_first, ← after_first, after_append]

/-! ## Numbers of 32 bits -/

/-- The position tells the place behind a text as it is. -/
structure Tells (p : Position) (text : List Char) : Prop where
  line : p.line.toNat = lineBehind text
  column : p.column.toNat = columnBehind text

theorem tells_behind_iff {file : String} {text : List Char} : (behind file text).Tells text ↔
    lineBehind text < UInt32.size ∧ columnBehind text < UInt32.size := by
  constructor
  · rintro ⟨hline, hcolumn⟩
    rw [← hline, ← hcolumn]
    exact ⟨UInt32.toNat_lt_size _, UInt32.toNat_lt_size _⟩
  · rintro ⟨hline, hcolumn⟩
    exact ⟨UInt32.toNat_ofNat_of_lt' hline, UInt32.toNat_ofNat_of_lt' hcolumn⟩

/-- Every line and every column of the text has a number of 32 bits. -/
def Countable (text : List Char) : Prop :=
  ∀ before, before <+: text → lineBehind before < UInt32.size ∧ columnBehind before < UInt32.size

variable {file : String} {before text : List Char}

theorem Countable.of_initial (h : Countable text) (hbefore : before <+: text) :
    Countable before :=
  fun front hfront => h front (hfront.trans hbefore)

theorem Countable.tells (h : Countable text) (hbefore : before <+: text) :
    (behind file before).Tells before :=
  tells_behind_iff.mpr (h before hbefore)

/-- A text with fewer characters than there are numbers can be counted. -/
theorem countable_of_length_lt (h : text.length + 1 < UInt32.size) : Countable text := by
  intro before hbefore
  have hlength := hbefore.length_le
  have hlines : before.count '\n' ≤ before.length := List.count_le_length
  have hcolumns : (before.reverse.takeWhile (· != '\n')).length ≤ before.reverse.length :=
    (List.takeWhile_prefix _).length_le
  rw [List.length_reverse] at hcolumns
  rw [lineBehind, columnBehind]
  omega

end CoolLang.Position
