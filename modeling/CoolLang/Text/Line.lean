/-!
# Lines of a text

A line ends at a line feed, which is not part of it; a carriage return right before the line feed
is not part of it either. A text that ends in a line feed has no further, empty line.
-/

namespace CoolLang.Text

/-- The text of the first line. -/
def firstLine (cs : List Char) : List Char :=
  let line := cs.takeWhile (· != '\n')
  if '\n' ∈ cs ∧ line.getLast? = some '\r' then line.dropLast else line

/-- What follows the first line feed. -/
def afterFirstLine (cs : List Char) : List Char :=
  (cs.dropWhile (· != '\n')).drop 1

/-- The line with the given index, counted from zero. -/
def line? : List Char → Nat → Option (List Char)
  | [], _ => none
  | cs, 0 => some (firstLine cs)
  | cs, n + 1 => line? (afterFirstLine cs) n

end CoolLang.Text
