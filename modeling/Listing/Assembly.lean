import Listing.Draft.Step
import Listing.Request.Place

namespace Listing

/-- A query in the making, in states `σ`. A scope works on a query of its own, which goes into the
query at hand when the scope is closed. -/
structure Builder (σ : Type) where
  tableAt (chain : String) : EStateM Failure σ String
  restrict (p : Predicate) : EStateM Failure σ Unit
  group (connective : Connective) (scope : EStateM Failure σ Unit) : EStateM Failure σ Unit
  existing (chain : String) (connective : Connective) (scope : EStateM Failure σ Unit) :
    EStateM Failure σ Unit
  order (o : Order) : EStateM Failure σ Unit
  load (includes : List (Include (EStateM Failure σ Unit))) : EStateM Failure σ Unit
  limit (n : UInt64) : EStateM Failure σ Unit
  offset (n : UInt64) : EStateM Failure σ Unit
  countRows : EStateM Failure σ UInt64

abbrev Groups (α : Type) := List (String × List α)

namespace Groups

variable {α : Type}

def add (chain : String) (item : α) : Groups α → Groups α
  | [] => [(chain, [item])]
  | (other, items) :: more =>
    if other = chain then (other, items ++ [item]) :: more
    else (other, items) :: add chain item more

end Groups

structure Partition where
  conjoined : Groups Filter := []
  disjoined : Groups Filter := []

def Partition.add (p : Partition) (chain : String) (f : Filter) : Partition :=
  match f.connective with
  | .and => { p with conjoined := p.conjoined.add chain f }
  | .or => { p with disjoined := p.disjoined.add chain f }

/-- A chain with conjoined filters is not opened a second time for its disjoined ones. -/
def Partition.reopened (p : Partition) : Groups Filter :=
  p.disjoined.filter fun group ↦ group.1 ∉ p.conjoined.map (·.1)

def distribute {σ α β : Type} (place : α → Place α) (onListing : α → EStateM Failure σ Unit)
    (collect : β → String → α → β) (items : List α) (start : β) : EStateM Failure σ β :=
  items.foldlM (fun collected item ↦
    match place item with
    | .root item => do
      onListing item
      return collected
    | .related chain item => return collect collected chain item) start

namespace Builder

variable {σ : Type} (B : Builder σ) (separator : Char)

def apply (f : Filter) : EStateM Failure σ Unit :=
  match f.predicate separator with
  | .ok p => B.restrict p
  | .error e => throw e

def partitionFilters (filters : List Filter) : EStateM Failure σ Partition :=
  distribute Filter.place (B.apply separator) Partition.add filters {}

def partitionOrders (orders : List Order) : EStateM Failure σ (Groups Order) :=
  distribute Order.place B.order (fun groups chain o ↦ groups.add chain o) orders []

def applyExisting (connective : Connective) (chain table : String) (filters : List Filter) :
    EStateM Failure σ Unit :=
  B.existing chain connective <| filters.forM fun f ↦
    B.group .and (B.apply separator { f with field := Path.qualify table f.field })

def lookUp {α : Type} (groups : Groups α) : EStateM Failure σ (List (String × String × List α)) :=
  groups.mapM fun (chain, items) ↦ return (chain, ← B.tableAt chain, items)

/-- One group in which every chain stands once. All tables are asked for before it is opened. -/
def applyRelated (connective : Connective) (groups : Groups Filter) :
    EStateM Failure σ Unit := do
  unless groups.isEmpty do
    let named ← B.lookUp groups
    B.group connective <| named.forM fun (chain, table, filters) ↦
      B.applyExisting separator connective chain table filters

def includeOrdered (chain table : String) (orders : List Order) :
    Include (EStateM Failure σ Unit) :=
  .scoped chain <| orders.map fun o ↦ B.order { o with field := Path.qualify table o.field }

def mergeOrders (groups : Groups Order) (includes : List (Include (EStateM Failure σ Unit))) :
    EStateM Failure σ (List (Include (EStateM Failure σ Unit))) :=
  groups.foldlM (fun includes (chain, orders) ↦
    return Include.put (B.includeOrdered chain (← B.tableAt chain) orders) includes) includes

def applyIncludes (chains : List String) (groups : Groups Order) : EStateM Failure σ Unit := do
  let includes ← B.mergeOrders groups (chains.map .plain)
  unless includes.isEmpty do
    B.load includes

def arrange (r : Request) : EStateM Failure σ Unit := do
  let filters ← B.partitionFilters separator r.filters
  let orders ← B.partitionOrders r.orders
  B.applyRelated separator .and filters.conjoined
  B.applyRelated separator .or filters.reopened
  B.applyIncludes r.includedChains.eraseDups orders

def turnTo : Option Window → EStateM Failure σ Window
  | some w => do
    B.limit w.limit
    B.offset w.offset
    return w
  | none => return ⟨1, ← B.countRows⟩

/-- Puts a request into a query, and tells the page to take of it. -/
def assemble (r : Request) : EStateM Failure σ Window := do
  B.arrange separator r
  B.turnTo r.page?

end Builder

end Listing
