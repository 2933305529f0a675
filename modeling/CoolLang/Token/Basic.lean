import CoolLang.Source.Position
import CoolLang.Text.Quoted

/-!
# Tokens
-/

namespace CoolLang

inductive TokenKind where
  | eof
  | integer
  | string
  | typeIdentifier
  | objectIdentifier
  | openCurly
  | closeCurly
  | openParen
  | closeParen
  | assign
  | darrow
  | equals
  | less
  | lessEquals
  | plus
  | dash
  | star
  | slash
  | tilde
  | dot
  | atSign
  | semicolon
  | colon
  | comma
  | classKw
  | inheritsKw
  | ifKw
  | thenKw
  | elseKw
  | fiKw
  | whileKw
  | loopKw
  | poolKw
  | letKw
  | inKw
  | caseKw
  | ofKw
  | esacKw
  | newKw
  | isVoidKw
  | notKw
  | trueKw
  | falseKw
deriving DecidableEq

namespace TokenKind

def all : List TokenKind :=
  [eof, integer, string, typeIdentifier, objectIdentifier, openCurly, closeCurly, openParen,
   closeParen, assign, darrow, equals, less, lessEquals, plus, dash, star, slash, tilde, dot,
   atSign, semicolon, colon, comma, classKw, inheritsKw, ifKw, thenKw, elseKw, fiKw, whileKw,
   loopKw, poolKw, letKw, inKw, caseKw, ofKw, esacKw, newKw, isVoidKw, notKw, trueKw, falseKw]

/-- The name of the kind in messages. -/
def name : TokenKind → String
  | eof => "EOF"
  | integer => "Integer"
  | string => "String"
  | typeIdentifier => "TypeIdentifier"
  | objectIdentifier => "ObjectIdentifier"
  | openCurly => "OpenCurly"
  | closeCurly => "CloseCurly"
  | openParen => "OpenParen"
  | closeParen => "CloseParen"
  | assign => "Assign"
  | darrow => "DArrow"
  | equals => "Equals"
  | less => "Less"
  | lessEquals => "LessEquals"
  | plus => "Plus"
  | dash => "Dash"
  | star => "Star"
  | slash => "Slash"
  | tilde => "Tilde"
  | dot => "Dot"
  | atSign => "At"
  | semicolon => "Semicolon"
  | colon => "Colon"
  | comma => "Comma"
  | classKw => "Class"
  | inheritsKw => "Inherits"
  | ifKw => "If"
  | thenKw => "Then"
  | elseKw => "Else"
  | fiKw => "Fi"
  | whileKw => "While"
  | loopKw => "Loop"
  | poolKw => "Pool"
  | letKw => "Let"
  | inKw => "In"
  | caseKw => "Case"
  | ofKw => "Of"
  | esacKw => "Esac"
  | newKw => "New"
  | isVoidKw => "IsVoid"
  | notKw => "Not"
  | trueKw => "True"
  | falseKw => "False"

def ofName? (s : String) : Option TokenKind :=
  all.find? (·.name == s)

theorem ofName?_name (k : TokenKind) : ofName? k.name = some k := by
  cases k <;> decide +kernel

/-- The keywords by their lower-case spelling. -/
def keywords : List (String × TokenKind) :=
  [("class", classKw), ("inherits", inheritsKw), ("if", ifKw), ("then", thenKw), ("else", elseKw),
   ("fi", fiKw), ("while", whileKw), ("loop", loopKw), ("pool", poolKw), ("let", letKw),
   ("in", inKw), ("case", caseKw), ("of", ofKw), ("esac", esacKw), ("new", newKw),
   ("isvoid", isVoidKw), ("not", notKw), ("true", trueKw), ("false", falseKw)]

end TokenKind

/-- A token. The text of a string literal is its content, with the escapes resolved. -/
structure Token where
  kind : TokenKind
  text : String
  span : Span
deriving DecidableEq

/-- The token as it is named in messages. -/
def Token.render (t : Token) : String :=
  match t.kind with
  | .string => Text.quote t.text
  | .eof => "end of file"
  | _ => t.text

/-- The mark that closes the tokens of a source. -/
def Token.endOfFile (p : Position) : Token := ⟨.eof, "EOF", ⟨p, p⟩⟩

end CoolLang
