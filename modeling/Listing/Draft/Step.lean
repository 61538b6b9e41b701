import Listing.Draft
import Listing.Text.Quoted

namespace Listing

/-- A path of relations to load, either whole or as the steps of a scope say. -/
inductive Include (σ : Type)
  | plain (chain : String)
  | scoped (chain : String) (scope : List σ)

namespace Include

def chain {σ : Type} : Include σ → String
  | .plain chain => chain
  | .scoped chain _ => chain

def put {σ : Type} (i : Include σ) : List (Include σ) → List (Include σ)
  | [] => [i]
  | other :: more => if other.chain = i.chain then i :: more else other :: put i more

def describe {σ : Type} : Include σ → String
  | .plain chain => "Relation(" ++ Text.quoted chain ++ ")"
  | .scoped chain _ => "Scoped \x7b relation: " ++ Text.quoted chain ++ ", .. \x7d"

end Include

/-- One step in putting a query together. The steps of a scope work on a query of their own. -/
inductive Step
  | restrict (p : Predicate)
  | group (connective : Connective) (scope : List Step)
  | existing (chain : String) (connective : Connective) (scope : List Step)
  | order (o : Order)
  | load (includes : List (Include Step))
  | limit (n : UInt64)
  | offset (n : UInt64)
  | tableAt (chain : String)
  | countRows
  | fail (f : Failure)
  deriving Inhabited

/-- What stands behind a query: the relations between tables, and how many rows a query finds. -/
structure Source where
  schema : Catalog
  count : Sql.Select → Except Failure UInt64

/-- The draft that steps leave, the queries whose rows they had counted, and the failure that
ended them. -/
structure Outcome where
  draft : Draft
  asked : List Sql.Select := []
  failure? : Option Failure := none

namespace Outcome

def ofExcept (d : Draft) : Except Failure Draft → Outcome
  | .ok d => { draft := d }
  | .error f => { draft := d, failure? := some f }

def andThen (o : Outcome) (next : Draft → Outcome) : Outcome :=
  match o.failure? with
  | some _ => o
  | none =>
    let o' := next o.draft
    { o' with asked := o.asked ++ o'.asked }

def close (o : Outcome) (d : Draft) (into : Draft → Draft) : Outcome :=
  match o.failure? with
  | some _ => { o with draft := d }
  | none => { o with draft := into o.draft }

end Outcome

namespace Step

mutual

def run (source : Source) : Step → Draft → Outcome
  | .restrict p, d => .ofExcept d (d.restrict source.schema p)
  | .group connective scope, d =>
    (runAll source scope { table := d.table }).close d fun inner ↦ d.pushGroup connective inner
  | .existing chain connective scope, d =>
    match source.schema.resolve d.table chain with
    | .error f => { draft := d, failure? := some f }
    | .ok hops =>
      (runAll source scope { table := Catalog.lastTable d.table hops }).close d fun inner ↦
        d.push connective (Draft.existence hops inner.condition?)
  | .order o, d => { draft := d.order o }
  | .load includes, d => runIncludes source includes d
  | .limit n, d => { draft := { d with limit? := some n } }
  | .offset n, d => { draft := { d with offset? := some n } }
  | .tableAt chain, d => .ofExcept d ((source.schema.tableAt d.table chain).map fun _ ↦ d)
  | .countRows, d =>
    { Outcome.ofExcept d ((source.count d.countSelect).map fun _ ↦ d) with
      asked := [d.countSelect] }
  | .fail f, d => { draft := d, failure? := some f }

def runAll (source : Source) : List Step → Draft → Outcome
  | [], d => { draft := d }
  | step :: more, d => (run source step d).andThen (runAll source more)

def runInclude (source : Source) : Include Step → Draft → Outcome
  | .plain chain, d =>
    .ofExcept d ((source.schema.resolve d.table chain).map fun hops ↦
      d.loadRoute (Draft.route chain hops))
  | .scoped chain scope, d =>
    match source.schema.resolve d.table chain with
    | .error f => { draft := d, failure? := some f }
    | .ok hops =>
      let d' := d.loadRoute (Draft.route chain hops)
      (runAll source scope { table := Catalog.lastTable d.table hops }).close d' fun inner ↦
        d'.loadScope (Draft.route chain hops) inner

def runIncludes (source : Source) : List (Include Step) → Draft → Outcome
  | [], d => { draft := d }
  | first :: more, d => (runInclude source first d).andThen (runIncludes source more)

end

end Step

def Script.filterStep (separator : Char) (f : Filter) : Step :=
  match f.predicate separator with
  | .ok p => .restrict p
  | .error e => .fail e

end Listing
