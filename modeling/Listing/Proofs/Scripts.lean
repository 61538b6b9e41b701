import Listing.Recording
import Listing.Proofs.Places

namespace Listing

namespace Step

mutual

def failure? : Step → Option Failure
  | .fail f => some f
  | .group _ scope => firstFailure? scope
  | .existing _ _ scope => firstFailure? scope
  | .load includes => includesFailure? includes
  | _ => none

def firstFailure? : List Step → Option Failure
  | [] => none
  | step :: more => (failure? step).or (firstFailure? more)

def includeFailure? : Include Step → Option Failure
  | .plain _ => none
  | .scoped _ scope => firstFailure? scope

def includesFailure? : List (Include Step) → Option Failure
  | [] => none
  | first :: more => (includeFailure? first).or (includesFailure? more)

end

end Step

/-- The steps of a request, and the page it asks for, if it does not ask for all rows. -/
structure Script where
  steps : List Step
  page? : Option Window

namespace Script

def withTables {α : Type} (tableAt : String → Except Failure String)
    (items : List (String × α)) : Except Failure (List (String × String × α)) :=
  items.mapM fun (chain, item) ↦ (tableAt chain).map (chain, ·, item)

theorem withTables_cons {α : Type} {tableAt : String → Except Failure String}
    (chain : String) (item : α) (more : List (String × α)) :
    withTables tableAt ((chain, item) :: more) = (tableAt chain).bind fun table ↦
      (withTables tableAt more).map ((chain, table, item) :: ·) := by
  simp only [withTables, List.mapM_cons]
  cases tableAt chain with
  | error f => rfl
  | ok table => cases more.mapM fun next ↦ (tableAt next.1).map (next.1, ·, next.2) <;> rfl

def existingStep (separator : Char) (connective : Connective) (chain table : String)
    (filters : List Filter) : Step :=
  .existing chain connective <| filters.map fun f ↦
    .group .and [filterStep separator { f with field := Path.qualify table f.field }]

def relatedSteps (separator : Char) (tableAt : String → Except Failure String)
    (connective : Connective) (filters : List (String × List Filter)) : List Step :=
  if filters.isEmpty then []
  else
    match withTables tableAt filters with
    | .error e => [.fail e]
    | .ok named =>
      [.group connective <| named.map fun (chain, table, filters) ↦
        existingStep separator connective chain table filters]

def includeOf (named : List (String × String × List Order)) (chain : String) : Include Step :=
  match named.lookup chain with
  | none => .plain chain
  | some (table, orders) =>
    .scoped chain <| orders.map fun o ↦
      .order { o with field := Path.qualify table o.field }

def includeSteps (tableAt : String → Except Failure String) (r : Request) : List Step :=
  if r.loadedChains.isEmpty then []
  else
    match withTables tableAt r.relatedOrders with
    | .error e => [.fail e]
    | .ok named => [.load (r.loadedChains.map (includeOf named))]

def pageSteps : Option Window → List Step
  | none => []
  | some w => [.limit w.limit, .offset w.offset]

/-- `tableAt` tells the table that a chain of relations leads to from the listing. -/
def ofRequest (separator : Char) (tableAt : String → Except Failure String) (r : Request) :
    Script where
  steps :=
    r.rootFilters.map (filterStep separator) ++ r.rootOrders.map Step.order ++
      relatedSteps separator tableAt .and r.conjoined ++
      relatedSteps separator tableAt .or r.disjoined ++
      includeSteps tableAt r ++ pageSteps r.page?
  page? := r.page?

def lookups (r : Request) : List String :=
  r.conjoined.map (·.1) ++ r.disjoined.map (·.1) ++ r.relatedOrders.map (·.1)

def plan (script : Script) (source : Source) (table : String) : Planned :=
  let o := Step.runAll source script.steps { table }
  match o.failure?, script.page? with
  | some f, _ => ⟨.error f, o.asked⟩
  | none, some w => ⟨.ok (o.draft.page w.limit w.page), o.asked⟩
  | none, none =>
    let count := o.draft.countSelect
    ⟨(source.count count).map fun n ↦ o.draft.page n 1, o.asked ++ [count]⟩

def record (script : Script) (rows : UInt64) : Except Failure Recording :=
  match Step.firstFailure? script.steps with
  | some f => .error f
  | none =>
    let window := script.page?.getD ⟨1, rows⟩
    .ok ⟨script.steps, window.limit, window.page⟩

end Script

end Listing
