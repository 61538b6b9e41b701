import Listing.Failure
import Listing.Text.Parts

namespace Listing

/-- A named step from one table to another: the rows of `target` that belong to a row of `owner`
hold in `targetColumn` what it holds in `ownerColumn`. -/
structure Relation where
  owner : String
  name : String
  target : String
  ownerColumn : String
  targetColumn : String
  deriving DecidableEq

structure Catalog where
  relation? : String → String → Option Relation

namespace Catalog

def walk (catalog : Catalog) (owner : String) : List String → Except Failure (List Relation)
  | [] => .ok []
  | segment :: more =>
    match catalog.relation? owner segment with
    | none => .error (.unknownRelation owner segment)
    | some hop => (catalog.walk hop.target more).map (hop :: ·)

/-- The relations that a dotted chain of names passes from `root` on, one for each segment. -/
def resolve (catalog : Catalog) (root chain : String) : Except Failure (List Relation) :=
  catalog.walk root (Text.parts '.' chain)

def lastTable (root : String) (hops : List Relation) : String :=
  hops.getLast?.elim root Relation.target

def tableAt (catalog : Catalog) (root chain : String) : Except Failure String :=
  (catalog.resolve root chain).map (lastTable root)

end Catalog

/-- Relations, of which a later one replaces an earlier one of the same owner and name. -/
structure Schema where
  relations : List Relation := []
  deriving DecidableEq

namespace Schema

def relation? (schema : Schema) (owner name : String) : Option Relation :=
  schema.relations.findRev? fun r ↦ r.owner == owner && r.name == name

def catalog (schema : Schema) : Catalog := ⟨schema.relation?⟩

instance : Coe Schema Catalog := ⟨catalog⟩

def size (schema : Schema) : Nat :=
  (schema.relations.map fun r ↦ (r.owner, r.name)).eraseDups.length

def resolve (schema : Schema) (root chain : String) : Except Failure (List Relation) :=
  schema.catalog.resolve root chain

end Schema

end Listing
