import CoolLang.Diagnostic.Basic
import CoolLang.Token.Basic
import CoolLang.Token.Cursor

/-!
# From text to tokens

A source is cut into lexemes from left to right. A lexeme is a gap (white space or a comment) or
the spelling of a token; numbers and words are as long as the text allows.
-/

namespace CoolLang

namespace Lexer

def isSpace (c : Char) : Bool :=
  c == ' ' || c == '\t' || c == '\r' || c == '\n' || c == '\x0b' || c == '\x0c'

/-- Whether a word that starts with `c` names an object rather than a type. -/
def isLower (c : Char) : Bool :=
  ('a' ≤ c && c ≤ 'z') || c == '_'

def isUpper (c : Char) : Bool :=
  'A' ≤ c && c ≤ 'Z'

def isWordStart (c : Char) : Bool :=
  isLower c || isUpper c

def isWordPart (c : Char) : Bool :=
  isWordStart c || Text.isDigit c

/-- How many characters a comment takes after its opening mark. A comment that is not closed has no
length. How many comments are open is counted in 32 bits. -/
def commentLength? (text : List Char) : Option Nat :=
  go 1 0 text
where
  go (depth : Int32) (n : Nat) (text : List Char) : Option Nat :=
    if 0 < depth then
      match text with
      | [] => none
      | '(' :: '*' :: rest => go (depth + 1) (n + 2) rest
      | '*' :: ')' :: rest => go (depth - 1) (n + 2) rest
      | _ :: rest => go depth (n + 1) rest
    else some n

/-- What the text after an opening quote holds. -/
inductive Literal where
  /-- A string with this content; its spelling ends after `length` characters. -/
  | closed (content : List Char) (length : Nat)
  | unterminated
  /-- A null character stands at the offset. -/
  | nul (offset : Nat)

/-- The literal with a character written in `width` characters put in front. -/
def Literal.cons (c : Char) (width : Nat) : Literal → Literal
  | closed content length => closed (c :: content) (length + width)
  | unterminated => unterminated
  | nul offset => nul (offset + width)

/-- The character that a backslash before `c` stands for. -/
def unescape (c : Char) : Char :=
  match c with
  | 'n' => '\n'
  | 't' => '\t'
  | 'b' => '\x08'
  | 'f' => '\x0c'
  | c => c

/-- Reads a string after its opening quote. A line may end inside it only behind a backslash. -/
def literal : List Char → Literal
  | [] => .unterminated
  | '"' :: _ => .closed [] 1
  | '\n' :: _ => .unterminated
  | '\x00' :: _ => .nul 0
  | '\\' :: [] => .unterminated
  | '\\' :: '\x00' :: _ => .nul 1
  | '\\' :: c :: rest => (literal rest).cons (unescape c) 2
  | c :: rest => (literal rest).cons c 1

/-- Keywords may be written in either case, but a truth value starts with a small letter. -/
def wordKind (word : List Char) : TokenKind :=
  let lower := word.head?.any isLower
  let plain := if lower then .objectIdentifier else .typeIdentifier
  match TokenKind.keywords.lookup (String.ofList (word.map Char.toLower)) with
  | some .trueKw => if lower then .trueKw else plain
  | some .falseKw => if lower then .falseKw else plain
  | some keyword => keyword
  | none => plain

/-- The operator or punctuation mark at the head of the text, with its width. -/
def symbol? : List Char → Option (TokenKind × Nat)
  | '<' :: '-' :: _ => some (.assign, 2)
  | '<' :: '=' :: _ => some (.lessEquals, 2)
  | '<' :: _ => some (.less, 1)
  | '=' :: '>' :: _ => some (.darrow, 2)
  | '=' :: _ => some (.equals, 1)
  | '\x7b' :: _ => some (.openCurly, 1)
  | '\x7d' :: _ => some (.closeCurly, 1)
  | '(' :: _ => some (.openParen, 1)
  | ')' :: _ => some (.closeParen, 1)
  | '.' :: _ => some (.dot, 1)
  | '@' :: _ => some (.atSign, 1)
  | ';' :: _ => some (.semicolon, 1)
  | ':' :: _ => some (.colon, 1)
  | ',' :: _ => some (.comma, 1)
  | '+' :: _ => some (.plus, 1)
  | '-' :: _ => some (.dash, 1)
  | '*' :: _ => some (.star, 1)
  | '/' :: _ => some (.slash, 1)
  | '~' :: _ => some (.tilde, 1)
  | _ => none

inductive Lexeme where
  | gap (length : Nat)
  | token (kind : TokenKind) (text : String) (length : Nat)

/-- The number at the head of the text. -/
def number (c : Cursor) : Except Diagnostic Lexeme :=
  let digits := c.rest.takeWhile Text.isDigit
  if (Text.int64? digits).isSome then
    .ok (.token .integer (String.ofList digits) digits.length)
  else
    .error ⟨.numberOutOfRange (String.ofList digits), c.position⟩

/-- The string at the head of the text, whose opening quote is followed by `rest`. -/
def quoted (c : Cursor) (rest : List Char) : Except Diagnostic Lexeme :=
  match literal rest with
  | .closed content length => .ok (.token .string (String.ofList content) (length + 1))
  | .unterminated => .error ⟨.unterminatedString, c.position⟩
  | .nul offset => .error ⟨.invalidStringCharacter "\\0", (c.drop (offset + 1)).position⟩

/-- The lexeme at the head of the text. -/
def lexeme (c : Cursor) : Except Diagnostic Lexeme :=
  match c.rest with
  | [] => .ok (.gap 0)
  | '-' :: '-' :: rest => .ok (.gap ((rest.takeWhile (· != '\n')).length + 2))
  | '(' :: '*' :: rest =>
    match commentLength? rest with
    | some n => .ok (.gap (n + 2))
    | none => .error ⟨.unterminatedComment, c.position⟩
  | '*' :: ')' :: _ => .error ⟨.unrecognisedToken "*)", c.position⟩
  | '"' :: rest => quoted c rest
  | x :: _ =>
    if isSpace x then .ok (.gap (c.rest.takeWhile isSpace).length)
    else if Text.isDigit x then number c
    else if isWordStart x then
      let word := c.rest.takeWhile isWordPart
      .ok (.token (wordKind word) (String.ofList word) word.length)
    else
      match symbol? c.rest with
      | some (kind, n) => .ok (.token kind (String.ofList (c.rest.take n)) n)
      | none => .error ⟨.unrecognisedToken (String.singleton x), c.position⟩

/-- The tokens from a position on, behind those in `done`, which stand in reverse. The first
`pending` characters belong to the lexeme read last and are only passed over. -/
def lexFrom (done : List Token) (pending : Nat) (position : Position) :
    List Char → Except Diagnostic (List Token)
  | [] => .ok ((Token.endOfFile position :: done).reverse)
  | c :: rest =>
    match pending with
    | n + 1 => lexFrom done n (position.next c) rest
    | 0 =>
      let here : Cursor := ⟨c :: rest, position⟩
      match lexeme here with
      | .error d => .error d
      | .ok (.gap n) => lexFrom done (n - 1) (position.next c) rest
      | .ok (.token kind text n) =>
        let token : Token := ⟨kind, text, ⟨position, (here.drop n).position⟩⟩
        lexFrom (token :: done) (n - 1) (position.next c) rest

end Lexer

/-- The tokens of a source, closed by the end-of-file mark. -/
def tokenize (source file : String) : Except Diagnostic (List Token) :=
  Lexer.lexFrom [] 0 (.first file) source.toList

end CoolLang
