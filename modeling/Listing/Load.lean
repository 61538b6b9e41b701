import Listing.Schema
import Listing.Sql.Select

namespace Listing

open Sql

/-- The query for the rows that one hop of an include reaches from the rows of its parent. -/
structure Load where
  path : String
  parentTable : String
  parentColumn : String
  table : String
  column : String
  select : Select

namespace Load

def ofHop (path : String) (hop : Relation) (select : Select) : Load :=
  ⟨path, hop.owner, hop.ownerColumn, hop.target, hop.targetColumn, select⟩

def keyed (load : Load) (keys : List Value) : Select :=
  let belongs := Condition.atom (.oneOf ⟨load.table, load.column⟩ keys)
  { load.select with condition? := some (Junction.narrow belongs load.select.condition?) }

def put (load : Load) : List Load → List Load
  | [] => [load]
  | other :: more => if other.path = load.path then load :: more else other :: put load more

end Load

end Listing
