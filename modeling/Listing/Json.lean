namespace Listing

inductive Json
  | null
  | bool (b : Bool)
  | number (literal : String)
  | string (s : String)
  | array (items : List Json)
  | object (members : List (String × Json))
  /-- Well-formed text without a meaning: a string, or an object with a key, in which one half of
  a surrogate pair stands alone. -/
  | unreadable
  deriving Inhabited

namespace Json

def nat (n : Nat) : Json := .number (toString n)

/-- One value for each of `names`: an object gives them by name, each at most once and beside
members of other names, and an array by position, where the last ones may be missing. -/
def fields (names : List String) : Json → Option (List (Option Json))
  | .object members => names.mapM fun name ↦
    match members.filter (·.1 == name) with
    | [] => some none
    | [member] => some (some member.2)
    | _ => none
  | .array items =>
    if items.length ≤ names.length then
      some (items.map some ++ List.replicate (names.length - items.length) none)
    else none
  | _ => none

def required {α : Type} (read : Json → Option α) : Option Json → Option α
  | some j => read j
  | none => none

def optional {α : Type} (absent : α) (read : Json → Option α) : Option Json → Option α
  | some j => read j
  | none => some absent

def string? : Json → Option String
  | .string s => some s
  | _ => none

def list? {α : Type} (read : Json → Option α) : Json → Option (List α)
  | .array items => items.mapM read
  | _ => none

def uint64? : Json → Option UInt64
  | .number literal =>
    let digits := literal.toList
    let n := Nat.ofDigitChars 10 digits 0
    if digits.all Char.isDigit ∧ n < UInt64.size then some (UInt64.ofNat n) else none
  | _ => none

end Json

end Listing
