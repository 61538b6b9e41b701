import Listing.Text.Camel
import Listing.Text.Parts
import Listing.Json

namespace Listing

/-- A dotted path of a request: names of relations, each in camel case, and then a leaf, which is
empty if the whole path names relations. -/
structure Path where
  text : String
  relations : List String
  leaf : String

namespace Path

/-- The empty path has no segment at all, any other at least one, and segments may be empty. -/
def segments (text : String) : List String :=
  if text = "" then [] else Text.parts '.' text

def ofAttribute (text : String) : Path where
  text
  relations := (segments text).dropLast.map Text.camel
  leaf := (segments text).getLastD ""

def ofRelation (text : String) : Path where
  text
  relations := (segments text).map Text.camel
  leaf := ""

def hasRelations (p : Path) : Bool := !p.relations.isEmpty

def chain? (p : Path) : Option String :=
  if p.hasRelations then some (".".intercalate p.relations) else none

def toJson (p : Path) : Json :=
  .object [("value", .string p.text), ("relation_chain", .array (p.relations.map .string)),
    ("leaf_field", .string p.leaf)]

/-- A field with its table in front, where it does not stand already. -/
def qualify (table field : String) : String :=
  let qualifier := table ++ "."
  if qualifier.toList.isPrefixOf field.toList then field else qualifier ++ field

end Path

end Listing
