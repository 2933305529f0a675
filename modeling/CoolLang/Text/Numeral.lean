/-!
# Decimal numerals

Reading of decimal numerals into 64-bit numbers. A numeral is a non-empty run of the digits `0` to
`9`; a plus sign may stand before it, and a minus sign where the number is signed.
-/

namespace CoolLang.Text

def isDigit (c : Char) : Bool :=
  '0' ≤ c && c ≤ '9'

def digitValue (c : Char) : Nat :=
  c.toNat - '0'.toNat

/-- The value of a run of digits, most significant first. -/
def digitsValue (cs : List Char) : Nat :=
  cs.foldl (fun n c => 10 * n + digitValue c) 0

/-- The number a non-empty run of digits writes. -/
def natural? (cs : List Char) : Option Nat :=
  if cs ≠ [] ∧ cs.all isDigit then some (digitsValue cs) else none

/-- An unsigned 64-bit number, with an optional plus sign. -/
def natural64? (cs : List Char) : Option Nat :=
  let digits := match cs with
    | '+' :: rest => rest
    | _ => cs
  (natural? digits).filter (· < Nat.pow 2 64)

/-- A signed 64-bit number, with an optional sign. -/
def int64? (cs : List Char) : Option Int64 :=
  match cs with
  | '-' :: rest => do
    let n ← natural? rest
    if n ≤ Nat.pow 2 63 then some (Int64.ofInt (-n)) else none
  | '+' :: rest => positive? rest
  | _ => positive? cs
where
  positive? (digits : List Char) : Option Int64 := do
    let n ← natural? digits
    if n < Nat.pow 2 63 then some (Int64.ofNat n) else none

/-- The decimal numeral of a signed number. -/
def decimal (n : Int64) : String :=
  toString n.toInt

end CoolLang.Text
