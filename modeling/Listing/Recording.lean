import Listing.Plan

namespace Listing

/-- Names of tables by chain, of which a later one replaces an earlier one. Other chains lead to
the table of their last name. -/
def tableNames (names : List (String × String)) (chain : String) : String :=
  match names.findRev? (·.1 == chain) with
  | some (_, table) => table
  | none => (Text.parts '.' chain).getLastD chain

/-- Writes down what it is told to do. No schema stands behind it, only names of tables and a
number of rows. -/
structure Recorder where
  names : List (String × String)
  rows : UInt64
  steps : List Step := []

namespace Recorder

def push (step : Step) : EStateM Failure Recorder Unit :=
  modify fun r ↦ { r with steps := r.steps ++ [step] }

def inScope (scope : EStateM Failure Recorder Unit) : EStateM Failure Recorder (List Step) :=
  fun r ↦
    match scope { r with steps := [] } with
    | .ok _ child => .ok child.steps r
    | .error f _ => .error f r

def recordInclude : Include (EStateM Failure Recorder Unit) →
    EStateM Failure Recorder (Include Step)
  | .plain chain => return .plain chain
  | .scoped chain scope => return .scoped chain (← inScope (scope.forM id))

def builder : Builder Recorder where
  tableAt chain := return tableNames (← get).names chain
  restrict p := push (.restrict p)
  group connective scope := do push (.group connective (← inScope scope))
  existing chain connective scope := do push (.existing chain connective (← inScope scope))
  order o := push (.order o)
  load includes := do push (.load (← includes.mapM recordInclude))
  limit n := push (.limit n)
  offset n := push (.offset n)
  countRows := return (← get).rows

end Recorder

structure Recording where
  steps : List Step
  limit : UInt64
  page : UInt64

/-- Records what a request asks of a listing of so many rows. -/
def record (separator : Char) (names : List (String × String)) (rows : UInt64) (r : Request) :
    Except Failure Recording :=
  match Recorder.builder.assemble separator r { names, rows } with
  | .ok w recorder => .ok ⟨recorder.steps, w.limit, w.page⟩
  | .error f _ => .error f

end Listing
