import Listing.Proofs.Clauses
import Listing.Proofs.Counting
import Listing.Proofs.Walks

namespace Listing

open Sql

namespace Failure

def of? {α : Type} : Except Failure α → Option Failure
  | .ok _ => none
  | .error f => some f

@[simp] theorem of?_map {α β : Type} (g : α → β) (e : Except Failure α) :
    of? (e.map g) = of? e := by
  cases e <;> rfl

theorem of?_eq_none {α : Type} {e : Except Failure α} : of? e = none ↔ ∃ a, e = .ok a := by
  cases e with
  | ok a => exact iff_of_true rfl ⟨a, rfl⟩
  | error f => exact iff_of_false (Option.some_ne_none f) fun ⟨a, h⟩ ↦ by cases h

theorem of?_eq_some {α : Type} {e : Except Failure α} {f : Failure} :
    of? e = some f ↔ e = .error f := by
  cases e with
  | ok a => exact iff_of_false (Option.some_ne_none f).symm fun h ↦ by cases h
  | error g =>
    constructor
    · exact fun h ↦ congrArg _ (Option.some.inj h)
    · exact fun h ↦ congrArg _ (Except.error.inj h)

end Failure

namespace Catalog

variable (catalog : Catalog) (table : String)

def fault? (chain : String) : Option Failure := Failure.of? (catalog.resolve table chain)

variable {catalog table}

theorem walk_error {names : List String} {f : Failure} (h : catalog.walk table names = .error f) :
    ∃ owner name, f = .unknownRelation owner name := by
  induction names generalizing table with
  | nil => cases h
  | cons name names ih =>
    rcases walk_cons_eq_error.mp h with ⟨-, rfl⟩ | ⟨hop, -, hw⟩
    · exact ⟨table, name, rfl⟩
    · exact ih hw

end Catalog

namespace Step

variable (catalog : Catalog)

mutual

/-- Why a step fails on `table`, whatever the draft holds by then. -/
def fault? (table : String) : Step → Option Failure
  | .restrict p => Failure.of? (Draft.tested { table } catalog p.test)
  | .group _ scope => firstFault? table scope
  | .existing chain _ scope =>
    match catalog.resolve table chain with
    | .ok hops => firstFault? (Catalog.lastTable table hops) scope
    | .error f => some f
  | .load includes => includesFault? table includes
  | .tableAt chain => catalog.fault? table chain
  | .fail f => some f
  | _ => none

def firstFault? (table : String) : List Step → Option Failure
  | [] => none
  | step :: more => (fault? table step).or (firstFault? table more)

def includeFault? (table : String) : Include Step → Option Failure
  | .plain chain => catalog.fault? table chain
  | .scoped chain scope =>
    match catalog.resolve table chain with
    | .ok hops => firstFault? (Catalog.lastTable table hops) scope
    | .error f => some f

def includesFault? (table : String) : List (Include Step) → Option Failure
  | [] => none
  | i :: more => (includeFault? table i).or (includesFault? table more)

end

theorem firstFault?_eq (table : String) (steps : List Step) :
    firstFault? catalog table steps = steps.findSome? (fault? catalog table) := by
  induction steps with
  | nil => rfl
  | cons step more ih =>
    rw [firstFault?, ih, List.findSome?_cons]
    cases fault? catalog table step <;> rfl

theorem firstFault?_map_eq_none {α : Type} {catalog : Catalog} {table : String} {step : α → Step}
    {l : List α} : firstFault? catalog table (l.map step) = none ↔
      ∀ a ∈ l, fault? catalog table (step a) = none := by
  rw [firstFault?_eq, List.findSome?_map, List.findSome?_eq_none_iff]
  rfl

theorem includesFault?_eq (table : String) (includes : List (Include Step)) :
    includesFault? catalog table includes = includes.findSome? (includeFault? catalog table) := by
  induction includes with
  | nil => rfl
  | cons i more ih =>
    rw [includesFault?, ih, List.findSome?_cons]
    cases includeFault? catalog table i <;> rfl

end Step

theorem Outcome.failure?_andThen_or (o : Outcome) (next : Draft → Outcome) :
    (o.andThen next).failure? = o.failure?.or (next o.draft).failure? := by
  unfold andThen
  cases h : o.failure? <;> simp [h]

theorem Outcome.failure?_ofExcept (d : Draft) (e : Except Failure Draft) :
    (Outcome.ofExcept d e).failure? = Failure.of? e := by
  cases e <;> rfl

namespace Step

variable (source : Source)

mutual

theorem failure?_run : ∀ (step : Step), step.counts = false → ∀ d : Draft,
    (run source step d).failure? = fault? source.schema d.table step
  | .restrict p, _, d => by
    rw [run, Outcome.failure?_ofExcept, Draft.restrict, Failure.of?_map, d.tested_table, fault?]
  | .group c scope, h, d => by
    rw [run, Outcome.failure?_close, fault?]
    exact failure?_runAll scope h _
  | .existing chain c scope, h, d => by
    simp only [run, fault?]
    cases source.schema.resolve d.table chain with
    | error f => rfl
    | ok hops =>
      simp only [Outcome.failure?_close]
      exact failure?_runAll scope h _
  | .load includes, h, d => failure?_runIncludes includes h d
  | .order _, _, _ => rfl
  | .limit _, _, _ => rfl
  | .offset _, _, _ => rfl
  | .tableAt chain, _, d => by
    rw [run, Outcome.failure?_ofExcept, Failure.of?_map, Catalog.tableAt, Failure.of?_map, fault?]
    rfl
  | .countRows, h, _ => absurd h.symm Bool.false_ne_true
  | .fail _, _, _ => rfl

theorem failure?_runAll : ∀ (steps : List Step), countsAny steps = false → ∀ d : Draft,
    (runAll source steps d).failure? = firstFault? source.schema d.table steps
  | [], _, _ => rfl
  | step :: more, h, d => by
    obtain ⟨hstep, hmore⟩ := Bool.or_eq_false_iff.mp h
    have hfirst := failure?_run step hstep d
    have hlater := failure?_runAll more hmore (run source step d).draft
    rw [run_table] at hlater
    rw [runAll, Outcome.failure?_andThen_or, hfirst, hlater, firstFault?]

theorem failure?_runInclude : ∀ (i : Include Step), includeCounts i = false → ∀ d : Draft,
    (runInclude source i d).failure? = includeFault? source.schema d.table i
  | .plain chain, _, d => by
    rw [runInclude, Outcome.failure?_ofExcept, Failure.of?_map, includeFault?]
    rfl
  | .scoped chain scope, h, d => by
    simp only [runInclude, includeFault?]
    cases source.schema.resolve d.table chain with
    | error f => rfl
    | ok hops =>
      simp only [Outcome.failure?_close]
      exact failure?_runAll scope h _

theorem failure?_runIncludes : ∀ (includes : List (Include Step)), includesCount includes = false →
    ∀ d : Draft, (runIncludes source includes d).failure? =
      includesFault? source.schema d.table includes
  | [], _, _ => rfl
  | i :: more, h, d => by
    obtain ⟨hi, hmore⟩ := Bool.or_eq_false_iff.mp h
    have hfirst := failure?_runInclude i hi d
    have hlater := failure?_runIncludes more hmore (runInclude source i d).draft
    rw [runInclude_table] at hlater
    rw [runIncludes, Outcome.failure?_andThen_or, hfirst, hlater, includesFault?]

end

end Step

end Listing
