import Listing.Schema
import Listing.Text.Camel
import Listing.Json

namespace Listing

namespace Catalog

structure Check where
  connections : List String := []
  missing : List (String × String) := []

namespace Check

def passed (name : String) (c : Check) : Check :=
  { c with connections := name :: c.connections }

def missed (owner name : String) (c : Check) : Check :=
  { c with missing := (owner, name) :: c.missing }

def isValid (c : Check) : Bool := c.missing.isEmpty

def errors (c : Check) : List String :=
  c.missing.map fun (owner, name) ↦ "Relation does not exist: " ++ owner ++ "::" ++ name

def chain? (c : Check) : Option String :=
  if c.connections.isEmpty then none else some (".".intercalate c.connections)

def toJson (c : Check) : Json :=
  .object [("connections", .array (c.connections.map .string)),
    ("errors", .array (c.errors.map .string))]

end Check

/-- Goes on behind a missing relation with the same owner. With `leafLast` set, the last name
may be that of an attribute. -/
def scan (catalog : Catalog) (leafLast : Bool) (owner : String) : List String → Check
  | [] => {}
  | name :: more =>
    match catalog.relation? owner name with
    | some hop => (catalog.scan leafLast hop.target more).passed name
    | none =>
      if leafLast && more.isEmpty then {}
      else (catalog.scan leafLast owner more).missed owner name

/-- Checks the segments of a path that are not empty. Nothing is passed if anything is missing. -/
def check (catalog : Catalog) (root path : String) (leafLast : Bool) : Check :=
  let names := ((Text.parts '.' path).filter (· ≠ "")).map Text.camel
  let result := catalog.scan leafLast root names
  if result.isValid then result else { result with connections := [] }

end Catalog

def Schema.check (schema : Schema) (root path : String) (leafLast : Bool) : Catalog.Check :=
  schema.catalog.check root path leafLast

end Listing
