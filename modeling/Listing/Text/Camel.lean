import Listing.Text.Case

namespace Listing.Text

def onFirst (f : Char → List Char) : List Char → List Char
  | [] => []
  | c :: r => f c ++ r

/-- Words joined by underscores become one word: each starts with a capital, the first excepted. -/
def camel (s : String) : String :=
  let words := s.toList.splitOn '_'
  String.ofList (onFirst lower (words.flatMap (onFirst upper)))

end Listing.Text
