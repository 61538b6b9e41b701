import Listing.Json

namespace Listing.Json

namespace Writer

def charText (c : Char) : List Char :=
  match c with
  | '"' => ['\\', '"']
  | '\\' => ['\\', '\\']
  | '\x08' => ['\\', 'b']
  | '\t' => ['\\', 't']
  | '\n' => ['\\', 'n']
  | '\x0c' => ['\\', 'f']
  | '\r' => ['\\', 'r']
  | c =>
    if c.toNat < 0x20 then
      ['\\', 'u', '0', '0', Nat.digitChar (c.toNat / 16), Nat.digitChar (c.toNat % 16)]
    else [c]

def stringText (s : String) : List Char := '"' :: s.toList.flatMap charText ++ ['"']

mutual

def text : Json → List Char
  | .null => "null".toList
  | .bool true => "true".toList
  | .bool false => "false".toList
  | .number literal => literal.toList
  | .string s => stringText s
  | .array items => '[' :: [','].intercalate (itemTexts items) ++ [']']
  | .object members => '{' :: [','].intercalate (memberTexts members) ++ ['}']
  | .unreadable => "\"\\ud800\"".toList

def itemTexts : List Json → List (List Char)
  | [] => []
  | item :: more => text item :: itemTexts more

def memberTexts : List (String × Json) → List (List Char)
  | [] => []
  | (key, value) :: more => (stringText key ++ ':' :: text value) :: memberTexts more

end

end Writer

/-- The text of a value without blanks; only quotes, backslashes and controls are escaped. -/
def write (j : Json) : String := String.ofList (Writer.text j)

end Listing.Json
