import Listing.Text.Case

namespace Listing

inductive Connective
  | and
  | or
  deriving DecidableEq

namespace Connective

/-- `or` and `orWhere` disjoin, in any case and with underscores anywhere; other names conjoin. -/
def ofName (name : String) : Connective :=
  let word := String.ofList ((name.toList.filter (· ≠ '_')).flatMap Text.lower)
  if word = "orwhere" ∨ word = "or" then .or else .and

def name : Connective → String
  | .and => "where"
  | .or => "orWhere"

end Connective

inductive Direction
  | ascending
  | descending
  deriving DecidableEq

namespace Direction

def ofName (name : String) : Direction :=
  if name.toList.map Char.toLower = "desc".toList then .descending else .ascending

def name : Direction → String
  | .ascending => "ASC"
  | .descending => "DESC"

end Direction

/-- One condition asked for. The operator is a code that may still turn out to be unknown. -/
structure Filter where
  field : String
  operator : String
  value : String := ""
  connective : Connective := .and
  deriving DecidableEq

structure Order where
  field : String
  direction : Direction := .ascending
  deriving DecidableEq

structure Window where
  page : UInt64
  limit : UInt64
  deriving DecidableEq

/-- The rows before the window if windows count from zero, or the largest word if they are more. -/
def Window.offset (w : Window) : UInt64 := UInt64.ofNatClamp (w.page.toNat * w.limit.toNat)

structure Request where
  filters : List Filter := []
  orders : List Order := []
  includes : List String := []
  window? : Option Window := none
  deriving DecidableEq

namespace Request

/-- The window, unless its limit is zero, which asks for no page. -/
def page? (r : Request) : Option Window := r.window?.filter fun w ↦ 0 < w.limit

def hasFilters (r : Request) : Bool := !r.filters.isEmpty

def hasOrders (r : Request) : Bool := !r.orders.isEmpty

def hasIncludes (r : Request) : Bool := !r.includes.isEmpty

def hasPage (r : Request) : Bool := r.page?.isSome

def addFilter (r : Request) (f : Filter) : Request := { r with filters := r.filters ++ [f] }

def addOrder (r : Request) (o : Order) : Request := { r with orders := r.orders ++ [o] }

def addInclude (r : Request) (path : String) : Request :=
  { r with includes := r.includes ++ [path] }

def setWindow (r : Request) (w : Window) : Request := { r with window? := some w }

end Request

end Listing
