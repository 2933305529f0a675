import CoolLang.Diagnostic.Basic
import CoolLang.Text.Blank
import CoolLang.Text.Line

/-!
# Diagnostics shown in their source

A diagnostic is shown with the source line it points at. The line is written without its
indentation, and a caret under it marks the column.
-/

namespace CoolLang

/-- The text of a line, counted from one, without its terminator. -/
def sourceLine? (source : String) (line : UInt32) : Option String :=
  match line.toNat with
  | 0 => none
  | n + 1 => (Text.line? source.toList n).map String.ofList

def isIndent (c : Char) : Bool :=
  c == ' ' || c == '\t'

/-- The source line of a diagnostic, indented by a margin as wide as its number, and the caret line
that ends under the column. -/
def excerpt (position : Position) (line : String) : String :=
  let number := toString position.line
  let margin := String.ofList (List.replicate (number.length + 1) ' ')
  let indent := line.toList.takeWhile isIndent
  let text := line.toList.dropWhile isIndent
  let caret := max (position.column.toNat - indent.length) 1
  let rule := String.ofList (List.replicate (caret - 1) '-')
  s!"{margin}|\n{number} | {String.ofList (Text.trimEnd text)}\n{margin}| {rule}^\n"

/-- The diagnostic as it is shown to a person who can see `source`. -/
def Diagnostic.render (d : Diagnostic) (source : String) : String :=
  let place :=
    match sourceLine? source d.position.line with
    | some line => s!"-> {d.position.render}\n" ++ excerpt d.position line
    | none => if d.position.isNowhere then "" else s!"-> {d.position.render}\n"
  let advice :=
    match d.cause.tip? with
    | some tip => s!"= tip: {tip}\n"
    | none => ""
  d.headline ++ "\n" ++ place ++ advice

end CoolLang
