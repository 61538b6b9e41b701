import Listing.Path
import Listing.Predicate

namespace Listing

inductive Place (α : Type)
  | root (item : α)
  | related (chain : String) (item : α)

/-- A test for the existence of a relation belongs to the listing, whatever its path. -/
def Filter.place (f : Filter) : Place Filter :=
  let path := Path.ofAttribute f.field
  match path.chain? with
  | none => .root f
  | some chain =>
    if f.operator = Operator.has.code then .root { f with field := chain }
    else .related chain { f with field := path.leaf }

def Order.place (o : Order) : Place Order :=
  let path := Path.ofAttribute o.field
  match path.chain? with
  | none => .root o
  | some chain => .related chain { o with field := path.leaf }

def Request.includedChains (r : Request) : List String :=
  r.includes.filterMap fun path ↦ (Path.ofRelation path).chain?

end Listing
