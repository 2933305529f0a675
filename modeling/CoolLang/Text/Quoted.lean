import CoolLang.Text.Combining

/-!
# Quoted text

Text in double quotes, written so that every character can be seen: a quote, a backslash and the
common control characters have short escapes, and a character that has no visible form of its own
is written as its hexadecimal code point in braces.
-/

namespace CoolLang.Text

/-- The code point in lower-case hexadecimal digits without padding. -/
def codePointEscape (c : Char) : List Char :=
  ['\\', 'u', '\x7b'] ++ Nat.toDigits 16 c.toNat ++ ['\x7d']

def escape (c : Char) : List Char :=
  match c with
  | '\x00' => ['\\', '0']
  | '\t' => ['\\', 't']
  | '\r' => ['\\', 'r']
  | '\n' => ['\\', 'n']
  | '\\' => ['\\', '\\']
  | '"' => ['\\', '"']
  | c => if isCombining c || isUnprintable c then codePointEscape c else [c]

def quote (s : String) : String :=
  String.ofList ('"' :: s.toList.flatMap escape ++ ['"'])

end CoolLang.Text
