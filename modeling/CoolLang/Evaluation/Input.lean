import CoolLang.Text.Blank

/-!
# Input

The bytes that a program may still read. They are read by lines; a line must be valid UTF-8.
-/

namespace CoolLang

abbrev Input := List UInt8

namespace Input

def lineFeed : UInt8 := 10

/-- The bytes up to and including the first line feed, and the bytes after it. -/
def splitLine (bytes : Input) : Input × Input :=
  let rest := bytes.dropWhile (· != lineFeed)
  (bytes.takeWhile (· != lineFeed) ++ rest.take 1, rest.drop 1)

/-- What reading a line yields. -/
inductive Line where
  | text (content : String)
  | endOfInput
  | malformed
deriving DecidableEq

def isTerminator (c : Char) : Bool :=
  c == '\n' || c == '\r'

/-- A line without the line feeds and carriage returns at its end. -/
def decode (bytes : Input) : Line :=
  match String.fromUTF8? ⟨bytes.toArray⟩ with
  | some s => .text (String.ofList (Text.dropEndWhile isTerminator s.toList))
  | none => .malformed

/-- The next line, and the bytes that are left. A malformed line is used up as well. -/
def readLine (bytes : Input) : Line × Input :=
  if bytes.isEmpty then (.endOfInput, [])
  else
    let (line, rest) := bytes.splitLine
    (decode line, rest)

def ofString (s : String) : Input := s.toUTF8.toList

end Input

end CoolLang
