namespace Listing.Text

/-- The texts between the occurrences of `sep`, at least one. -/
def parts (sep : Char) (s : String) : List String :=
  (s.toList.splitOn sep).map String.ofList

def cut? (sep : Char) : List Char → Option (List Char × List Char)
  | [] => none
  | c :: r => if c = sep then some ([], r) else (cut? sep r).map fun (a, b) ↦ (c :: a, b)

end Listing.Text
