import Listing.Json

namespace Listing.Json.Reader

def blank (c : Char) : Bool := c = ' ' || c = '\t' || c = '\n' || c = '\r'

def skip (s : List Char) : List Char := s.dropWhile blank

def hexDigit? (c : Char) : Option Nat :=
  if '0' ≤ c ∧ c ≤ '9' then some (c.toNat - '0'.toNat)
  else if 'a' ≤ c ∧ c ≤ 'f' then some (c.toNat - 'a'.toNat + 10)
  else if 'A' ≤ c ∧ c ≤ 'F' then some (c.toNat - 'A'.toNat + 10)
  else none

def hexCode? (s : List Char) : Option Nat :=
  s.foldlM (fun code c ↦ (hexDigit? c).map (16 * code + ·)) 0

def escapeCode? : Char → Option Nat
  | '"' => some 0x22
  | '\\' => some 0x5c
  | '/' => some 0x2f
  | 'b' => some 0x08
  | 'f' => some 0x0c
  | 'n' => some 0x0a
  | 'r' => some 0x0d
  | 't' => some 0x09
  | _ => none

/-- What a string literal holds behind its opening quote, as code points among which an escape
may leave surrogates, and the text behind its closing quote. -/
def codes : List Char → Option (List Nat × List Char)
  | [] => none
  | '"' :: r => some ([], r)
  | '\\' :: 'u' :: a :: b :: c :: d :: r => do
    let code ← hexCode? [a, b, c, d]
    let (more, r) ← codes r
    return (code :: more, r)
  | '\\' :: c :: r => do
    let code ← escapeCode? c
    let (more, r) ← codes r
    return (code :: more, r)
  | c :: r => do
    guard (0x20 ≤ c.toNat)
    let (more, r) ← codes r
    return (c.toNat :: more, r)

def scalar? (code : Nat) : Option Char :=
  if 0xd800 ≤ code ∧ code < 0xe000 then none else some (Char.ofNat code)

def scalars? : List Nat → Option (List Char)
  | [] => some []
  | [code] => (scalar? code).map ([·])
  | high :: low :: r =>
    if 0xd800 ≤ high ∧ high < 0xdc00 ∧ 0xdc00 ≤ low ∧ low < 0xe000 then do
      let more ← scalars? r
      return Char.ofNat (0x10000 + (high - 0xd800) * 0x400 + (low - 0xdc00)) :: more
    else do
      let c ← scalar? high
      let more ← scalars? (low :: r)
      return c :: more

def text? (codes : List Nat) : Option String := (scalars? codes).map String.ofList

def digits? (s : List Char) : Option (List Char × List Char) :=
  match s.span Char.isDigit with
  | ([], _) => none
  | (digits, r) => some (digits, r)

def whole? : List Char → Option (List Char × List Char)
  | '0' :: r => some (['0'], r)
  | s => digits? s

def fraction? : List Char → Option (List Char × List Char)
  | '.' :: r => (digits? r).map fun (digits, r) ↦ ('.' :: digits, r)
  | s => some ([], s)

def sign (signs : List Char) : List Char → List Char × List Char
  | [] => ([], [])
  | c :: r => if c ∈ signs then ([c], r) else ([], c :: r)

def exponent? (s : List Char) : Option (List Char × List Char) :=
  match sign ['e', 'E'] s with
  | ([], s) => some ([], s)
  | (mark, s) =>
    let (sign, s) := sign ['+', '-'] s
    (digits? s).map fun (digits, r) ↦ (mark ++ sign ++ digits, r)

def number? (s : List Char) : Option (Json × List Char) := do
  let (sign, s) := sign ['-'] s
  let (whole, s) ← whole? s
  let (fraction, s) ← fraction? s
  let (exponent, s) ← exponent? s
  return (.number (String.ofList (sign ++ whole ++ fraction ++ exponent)), s)

def object (members : List (Option String × Json)) : Json :=
  match members.mapM fun (key, value) ↦ key.map (·, value) with
  | some members => .object members
  | none => .unreadable

mutual

/-- The value at the head of the text and what follows it. The first argument bounds the depth
of the calls. -/
def value : Nat → List Char → Option (Json × List Char)
  | 0, _ => none
  | n + 1, s =>
    match skip s with
    | 'n' :: 'u' :: 'l' :: 'l' :: r => some (.null, r)
    | 't' :: 'r' :: 'u' :: 'e' :: r => some (.bool true, r)
    | 'f' :: 'a' :: 'l' :: 's' :: 'e' :: r => some (.bool false, r)
    | '"' :: r => do
      let (codes, r) ← codes r
      return ((text? codes).elim .unreadable .string, r)
    | '[' :: r =>
      match skip r with
      | ']' :: r => some (.array [], r)
      | r => do
        let (items, r) ← items n r
        return (.array items, r)
    | '{' :: r =>
      match skip r with
      | '}' :: r => some (.object [], r)
      | r => do
        let (members, r) ← members n r
        return (object members, r)
    | s => number? s

def items : Nat → List Char → Option (List Json × List Char)
  | 0, _ => none
  | n + 1, s => do
    let (item, r) ← value n s
    match skip r with
    | ',' :: r =>
      let (more, r) ← items n r
      return (item :: more, r)
    | ']' :: r => return ([item], r)
    | _ => none

def members : Nat → List Char → Option (List (Option String × Json) × List Char)
  | 0, _ => none
  | n + 1, s =>
    match skip s with
    | '"' :: r => do
      let (key, r) ← codes r
      let ':' :: r := skip r | none
      let (item, r) ← value n r
      match skip r with
      | ',' :: r =>
        let (more, r) ← members n r
        return ((text? key, item) :: more, r)
      | '}' :: r => return ([(text? key, item)], r)
      | _ => none
    | _ => none

end

end Reader

def read? (s : String) : Option Json := do
  let (value, r) ← Reader.value (2 * s.length + 2) s.toList
  guard (Reader.skip r).isEmpty
  return value

end Listing.Json
