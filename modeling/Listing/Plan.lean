import Listing.Assembly

namespace Listing

structure Drafting where
  draft : Draft
  asked : List Sql.Select := []

namespace Drafting

def change (into : Draft → Draft) : EStateM Failure Drafting Unit :=
  modify fun s ↦ { s with draft := into s.draft }

def inScope (table : String) (scope : EStateM Failure Drafting Unit) :
    EStateM Failure Drafting Draft := fun s ↦
  match scope { s with draft := { table } } with
  | .ok _ inner => .ok inner.draft { s with asked := inner.asked }
  | .error f inner => .error f { s with asked := inner.asked }

end Drafting

namespace Source

open Drafting

variable (source : Source)

def hops (chain : String) : EStateM Failure Drafting (List Relation) := do
  MonadExcept.ofExcept (source.schema.resolve (← get).draft.table chain)

def loadInclude : Include (EStateM Failure Drafting Unit) → EStateM Failure Drafting Unit
  | .plain chain => do
    let hops ← source.hops chain
    change (·.loadRoute (Draft.route chain hops))
  | .scoped chain scope => do
    let hops ← source.hops chain
    change (·.loadRoute (Draft.route chain hops))
    let inner ← inScope (Catalog.lastTable (← get).draft.table hops) (scope.forM id)
    change (·.loadScope (Draft.route chain hops) inner)

def builder : Builder Drafting where
  tableAt chain := do MonadExcept.ofExcept (source.schema.tableAt (← get).draft.table chain)
  restrict p := do
    let d ← MonadExcept.ofExcept ((← get).draft.restrict source.schema p)
    change fun _ ↦ d
  group connective scope := do
    let inner ← inScope (← get).draft.table scope
    change (·.pushGroup connective inner)
  existing chain connective scope := do
    let hops ← source.hops chain
    let inner ← inScope (Catalog.lastTable (← get).draft.table hops) scope
    change (·.push connective (Draft.existence hops inner.condition?))
  order o := change (·.order o)
  load includes := includes.forM source.loadInclude
  limit n := change fun d ↦ { d with limit? := some n }
  offset n := change fun d ↦ { d with offset? := some n }
  countRows := do
    let count := (← get).draft.countSelect
    modify fun s ↦ { s with asked := s.asked ++ [count] }
    MonadExcept.ofExcept (source.count count)

end Source

structure Planned where
  result : Except Failure Page
  asked : List Sql.Select

/-- Plans the page of `table` that a request asks for. -/
def plan (separator : Char) (source : Source) (table : String) (r : Request) : Planned :=
  match source.builder.assemble separator r { draft := { table } } with
  | .ok w s => ⟨.ok (s.draft.page w.limit w.page), s.asked⟩
  | .error f s => ⟨.error f, s.asked⟩

end Listing
