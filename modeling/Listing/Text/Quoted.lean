import Listing.Text.Unprintable
import Listing.Text.GraphemeExtend

namespace Listing.Text

def within (ranges : List (Nat × Nat)) (c : Char) : Bool :=
  ranges.any fun range ↦ range.1 ≤ c.toNat && c.toNat ≤ range.2

/-- The letters that Unicode lets a display ignore: the fillers of Hangul. -/
def hangulFillers : List (Nat × Nat) := [(0x115f, 0x1160), (0x3164, 0x3164), (0xffa0, 0xffa0)]

/-- The letters among the characters that extend a grapheme: the sound marks of halfwidth
katakana, which fill a cell of their own. -/
def halfwidthSoundMarks : List (Nat × Nat) := [(0xff9e, 0xff9f)]

def isInvisible (c : Char) : Bool :=
  within unprintable c || within hangulFillers c ||
    within graphemeExtend c && !within halfwidthSoundMarks c

def quotedChar (c : Char) : List Char :=
  match c with
  | '\x00' => ['\\', '0']
  | '\t' => ['\\', 't']
  | '\r' => ['\\', 'r']
  | '\n' => ['\\', 'n']
  | '"' => ['\\', '"']
  | '\\' => ['\\', '\\']
  | c =>
    if isInvisible c then
      "\\u\x7b".toList ++ Nat.toDigits 16 c.toNat ++ "\x7d".toList
    else [c]

def quoted (s : String) : String :=
  String.ofList ('"' :: s.toList.flatMap quotedChar ++ ['"'])

end Listing.Text
