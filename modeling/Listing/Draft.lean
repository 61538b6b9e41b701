import Listing.Page

namespace Listing

open Sql

structure Clause where
  connective : Connective
  condition : Junction

/-- A query of one table as far as it has been put together. -/
structure Draft where
  table : String
  clauses : List Clause := []
  orders : List Order := []
  limit? : Option UInt64 := none
  offset? : Option UInt64 := none
  loads : List Load := []

namespace Draft

/-- The clauses cut before every disjoined one; the connective of the first does not count. -/
def runs : List Clause → List (List Clause)
  | [] => []
  | [c] => [[c]]
  | c :: d :: more =>
    match d.connective with
    | .and => (runs (d :: more)).modifyHead (c :: ·)
    | .or => [c] :: runs (d :: more)

def runJunction (run : List Clause) : Junction := ⟨.and, run.map (·.condition.toCondition)⟩

def condition? (d : Draft) : Option Junction :=
  match runs d.clauses with
  | [] => none
  | [run] => some (runJunction run)
  | runs => some ⟨.or, runs.map fun run ↦ (runJunction run).toCondition⟩

def column (d : Draft) (field : String) : Column := Column.ofField d.table field

def rowsSelect (d : Draft) : Select where
  table := d.table
  condition? := d.condition?
  orders := d.orders.map fun o ↦ (d.column o.field, o.direction)

def select (d : Draft) : Select :=
  { d.rowsSelect with limit? := d.limit?, offset? := d.offset? }

def countSelect (d : Draft) : Select where
  projection := .rowCount
  table := d.table
  condition? := d.condition?

/-- Pages count from 1, and a limit of zero leaves the page without end. What the draft has been
given as limit and offset does not count. -/
def page (d : Draft) (limit page : UInt64) : Page :=
  let number := max page 1
  let select :=
    if 0 < limit then
      { d.rowsSelect with
        limit? := some limit
        offset? := some (Window.offset ⟨number - 1, limit⟩) }
    else d.rowsSelect
  ⟨select, d.countSelect, d.loads, limit, number⟩

def push (d : Draft) (connective : Connective) (condition : Junction) : Draft :=
  { d with clauses := d.clauses ++ [⟨connective, condition⟩] }

def bound : Comparison → String → Value
  | .like, raw => .text raw
  | .notLike, raw => .text raw
  | _, raw => .ofLiteral raw

/-- For each hop some row of its target belongs to the row at hand, and the last one satisfies
the inner condition. -/
def nested : List Relation → Option Condition → Option Condition
  | [], inner => inner
  | hop :: more, inner =>
    let joins := Atom.joins ⟨hop.target, hop.targetColumn⟩ ⟨hop.owner, hop.ownerColumn⟩
    some (.existing hop.target .and (.atom joins :: (nested more inner).toList))

def existence (hops : List Relation) (inner : Option Junction) : Junction :=
  ⟨.and, (nested hops (inner.map Junction.toCondition)).toList⟩

def tested (d : Draft) (catalog : Catalog) : Test → Except Failure Junction
  | .compare field op raw =>
    .ok (.single (.atom (.compare (d.column field) op (bound op raw))))
  | .oneOf field raws => .ok (.single (.atom (.oneOf (d.column field) (raws.map .ofLiteral))))
  | .noneOf field raws => .ok (.single (.atom (.noneOf (d.column field) (raws.map .ofLiteral))))
  | .null field => .ok (.single (.atom (.null (d.column field))))
  | .notNull field => .ok (.single (.atom (.notNull (d.column field))))
  | .has chain => (catalog.resolve d.table chain).map (existence · none)

def restrict (d : Draft) (catalog : Catalog) (p : Predicate) : Except Failure Draft :=
  (d.tested catalog p.test).map (d.push p.connective)

def pushGroup (d : Draft) (connective : Connective) (inner : Draft) : Draft :=
  match inner.condition? with
  | some condition => d.push connective condition
  | none => d

def order (d : Draft) (o : Order) : Draft := { d with orders := d.orders ++ [o] }

/-- The hops with the paths that lead to them. A name behind an empty path takes no dot. -/
def stations (path : String) : List (String × Relation) → List (String × Relation)
  | [] => []
  | (name, hop) :: more =>
    let path := if path = "" then name else path ++ "." ++ name
    (path, hop) :: stations path more

def route (chain : String) (hops : List Relation) : List (String × Relation) :=
  stations "" ((Text.parts '.' chain).zip hops)

def hasLoad (d : Draft) (path : String) : Bool := d.loads.any (·.path == path)

def loadRoute (d : Draft) (route : List (String × Relation)) : Draft :=
  route.foldl (fun d (path, hop) ↦
    if d.hasLoad path then d
    else { d with loads := d.loads ++ [.ofHop path hop { table := hop.target }] }) d

def loadScope (d : Draft) (route : List (String × Relation)) (inner : Draft) : Draft :=
  match route.getLast? with
  | some (path, hop) => { d with loads := (Load.ofHop path hop inner.rowsSelect).put d.loads }
  | none => d

end Draft

end Listing
