import Listing.Sql.Condition

namespace Listing.Sql

inductive Projection
  | rows
  | rowCount
  deriving DecidableEq

structure Select where
  projection : Projection := .rows
  table : String
  condition? : Option Junction := none
  orders : List (Column × Direction) := []
  limit? : Option UInt64 := none
  offset? : Option UInt64 := none

end Listing.Sql
