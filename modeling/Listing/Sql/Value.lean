import Listing.Binary64
import Listing.Text.Parts

namespace Listing.Sql

inductive Value
  | bool (b : Bool)
  | int (i : Int32)
  | bigInt (i : Int64)
  | bigUnsigned (n : UInt64)
  | double (x : Binary64)
  | text (s : String)
  deriving DecidableEq

namespace Value

def isDigits (s : List Char) : Bool := !s.isEmpty && s.all Char.isDigit

def isNumber (s : List Char) : Bool := isDigits s && (s = ['0'] || s.head? ≠ some '0')

def bigInt? (negative : Bool) (digits : List Char) : Option Value :=
  let n : Int := Nat.ofDigitChars 10 digits 0
  let i := if negative then -n else n
  if Int64.minValue.toInt ≤ i ∧ i ≤ Int64.maxValue.toInt then some (.bigInt (Int64.ofInt i))
  else none

def numeric? (negative : Bool) (digits : List Char) : Option Value :=
  match Text.cut? '.' digits with
  | none => if isNumber digits then bigInt? negative digits else none
  | some (whole, fraction) =>
    if isNumber whole && isDigits fraction then
      some (.double (Binary64.ofDigits negative whole fraction))
    else none

/-- Truth values, whole numbers and decimal numbers are bound as what they denote. All else stays
text, and so do numbers that start with a superfluous zero, as in codes. -/
def ofLiteral (raw : String) : Value :=
  if raw = "true" then .bool true
  else if raw = "false" then .bool false
  else
    let number := match raw.toList with
      | '-' :: digits => numeric? true digits
      | digits => numeric? false digits
    number.getD (.text raw)

end Value

end Listing.Sql
