namespace Listing

/-- A binary floating-point number of 64 bits that is a number or an infinity. A finite one is
`significand * 2 ^ exponent` units of `2 ^ (-1074)`. -/
inductive Binary64
  | finite (negative : Bool) (significand exponent : Nat)
  | infinite (negative : Bool)
  deriving DecidableEq

namespace Binary64

def twoTo (n : Nat) : Nat := Nat.pow 2 n

def tenTo (n : Nat) : Nat := Nat.pow 10 n

def nearest (num den : Nat) : Nat :=
  let q := num / den
  let r := num % den
  if 2 * r < den ∨ 2 * r = den ∧ q % 2 = 0 then q else q + 1

/-- A significand that was rounded up to `2 ^ 53` is written with the next exponent, and an
exponent over 2045 is beyond the largest finite number. -/
def normal (negative : Bool) (significand exponent : Nat) : Binary64 :=
  let (m, e) := if significand = twoTo 53 then (twoTo 52, exponent + 1) else (significand, exponent)
  if 2045 < e then .infinite negative else .finite negative m e

def ofRatio (negative : Bool) (num den : Nat) : Binary64 :=
  let units := num * twoTo 1074
  let exponent := Nat.log2 (units / den) - 52
  normal negative (nearest units (den * twoTo exponent)) exponent

def ofDigits (negative : Bool) (whole fraction : List Char) : Binary64 :=
  ofRatio negative (Nat.ofDigitChars 10 (whole ++ fraction) 0) (tenTo fraction.length)

def interval (significand exponent : Nat) : Nat × Nat :=
  let below := if significand = twoTo 52 ∧ 0 < exponent then 1 else 2
  ((4 * significand - below) * twoTo exponent, (4 * significand + 2) * twoTo exponent)

def inInterval (significand exponent candidate : Nat) : Bool :=
  let (low, high) := interval significand exponent
  let point := candidate * twoTo 1076
  if significand % 2 = 0 then low * tenTo 324 ≤ point && point ≤ high * tenTo 324
  else low * tenTo 324 < point && point < high * tenTo 324

/-- The multiple of `grid` in the interval, if there is one, that is nearest to the number, the
upper of two. Grids and points count units of `10 ^ (-324)`. -/
def pointOn (significand exponent grid : Nat) : Option Nat :=
  let value := 4 * significand * twoTo exponent * tenTo 324
  let low := value / (grid * twoTo 1076) * grid
  let high := low + grid
  match inInterval significand exponent low, inInterval significand exponent high with
  | true, true =>
    if value - low * twoTo 1076 < high * twoTo 1076 - value then some low else some high
  | true, false => some low
  | false, true => some high
  | false, false => none

/-- A point of the coarsest decimal grid not coarser than `10 ^ places` units that has one in the
interval. -/
def shortest (significand exponent : Nat) : Nat → Nat
  | 0 => (pointOn significand exponent 1).getD 0
  | places + 1 =>
    match pointOn significand exponent (tenTo (places + 1)) with
    | some point => point
    | none => shortest significand exponent places

def positional (point places : Nat) : List Char :=
  let whole := Nat.toDigits 10 (point / tenTo places)
  let fraction := (Nat.toDigits 10 (tenTo places + point % tenTo places)).tail
  match (fraction.reverse.dropWhile (· = '0')).reverse with
  | [] => whole
  | digits => whole ++ '.' :: digits

/-- The fewest digits that read back to the number, never with an exponent. -/
def text : Binary64 → String
  | .infinite negative => (if negative then "-" else "") ++ "inf"
  | .finite negative significand exponent =>
    let point := if significand = 0 then 0 else shortest significand exponent 633
    (if negative then "-" else "") ++ String.ofList (positional point 324)

end Binary64

end Listing
