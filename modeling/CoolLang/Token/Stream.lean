import CoolLang.Diagnostic.Basic
import CoolLang.Token.Basic

/-!
# Token streams

The tokens still to be read. A stream never runs dry: at its end the last token is seen again and
again. `Parse` is the type of a reader that takes tokens from a stream; a reader that fails leaves
the stream where it stopped.
-/

namespace CoolLang

structure TokenStream where
  rest : List Token
  /-- What is seen once `rest` is empty. -/
  last : Token
  /-- Where the token taken last ends. -/
  previousStop : Position
deriving DecidableEq

namespace TokenStream

def ofTokens (tokens : List Token) (file : String) : TokenStream where
  rest := tokens
  last := tokens.getLast?.getD (Token.endOfFile (.first file))
  previousStop := .first file

def current (s : TokenStream) : Token :=
  s.rest.head?.getD s.last

/-- The kind of the token `n` places ahead of the current one. -/
def peekKind (s : TokenStream) (n : Nat) : TokenKind :=
  match s.rest[n]? with
  | some t => t.kind
  | none => .eof

def advance (s : TokenStream) : TokenStream :=
  match s.rest with
  | [] => s
  | t :: ts => { s with rest := ts, previousStop := t.span.stop }

def atEnd (s : TokenStream) : Bool :=
  s.current.kind = .eof

/-- The complaint that no rule accepts the current token. -/
def unexpected (s : TokenStream) : Diagnostic :=
  ⟨.unexpectedToken s.current.render, s.current.span.start⟩

/-- The complaint that the current token breaks the rule that `reason` states. -/
def unexpectedBecause (s : TokenStream) (reason : String) : Diagnostic :=
  ⟨.unexpectedTokenDetailed s.current.render reason, s.current.span.start⟩

end TokenStream

abbrev Parse := EStateM Diagnostic TokenStream

namespace Parse

def current : Parse Token :=
  fun s => .ok s.current s

def currentKind : Parse TokenKind :=
  fun s => .ok s.current.kind s

/-- Takes the current token. -/
def advance : Parse Token :=
  fun s => .ok s.current s.advance

def unexpected {α : Type} : Parse α :=
  fun s => .error s.unexpected s

def unexpectedBecause {α : Type} (reason : String) : Parse α :=
  fun s => .error (s.unexpectedBecause reason) s

/-- Takes the current token if it has the kind; else fails with the given complaint. -/
def expectOr (kind : TokenKind) (complaint : TokenStream → Diagnostic) : Parse Token :=
  fun s => if s.current.kind = kind then .ok s.current s.advance else .error (complaint s) s

def expect (kind : TokenKind) : Parse Token :=
  expectOr kind (·.unexpectedBecause s!"expected {kind.name}")

/-- Takes the current token if it has the kind, and says whether it did. -/
def accept (kind : TokenKind) : Parse Bool :=
  fun s => if s.current.kind = kind then .ok true s.advance else .ok false s

/-- The span from a position to the end of the token taken last. -/
def spanFrom (start : Position) : Parse Span :=
  fun s => .ok ⟨start, s.previousStop⟩ s

/-- Gives a reader that needs a bound on its repetitions one more than the tokens that are left,
which is enough for every reader that takes a token in each round. -/
def bounded {α : Type} (reader : Nat → Parse α) : Parse α :=
  fun s => reader (s.rest.length + 1) s

/-- Reads items until the current token has the kind `close`, which is not taken. -/
@[specialize] def itemsUntil {α : Type} (close : TokenKind) (item : Parse α) : Parse (List α) :=
  bounded go
where
  go (bound : Nat) : Parse (List α) := do
    if (← currentKind) = close then return []
    match bound with
    | 0 => unexpected
    | n + 1 =>
      let head ← item
      let tail ← go n
      return head :: tail

/-- Reads one or more items with commas between them. -/
@[specialize] def commaSeparated {α : Type} (item : Parse α) : Parse (List α) :=
  bounded go
where
  go (bound : Nat) : Parse (List α) := do
    let head ← item
    if ← accept .comma then
      match bound with
      | 0 => unexpected
      | n + 1 =>
        let tail ← go n
        return head :: tail
    else return [head]

/-- Items with commas between them in parentheses, or none. -/
@[specialize] def parenthesized {α : Type} (item : Parse α) : Parse (List α) := do
  let _ ← expect .openParen
  let items ← if (← currentKind) = .closeParen then pure [] else commaSeparated item
  let _ ← expect .closeParen
  return items

end Parse

end CoolLang
