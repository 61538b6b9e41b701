import Listing.Proofs.Runs

namespace Listing

open Sql

namespace Step

mutual

/-- Some step asks how many rows a query finds, in whatever scope it stands. -/
def counts : Step → Bool
  | .countRows => true
  | .group _ scope => countsAny scope
  | .existing _ _ scope => countsAny scope
  | .load includes => includesCount includes
  | _ => false

def countsAny : List Step → Bool
  | [] => false
  | step :: more => counts step || countsAny more

def includeCounts : Include Step → Bool
  | .plain _ => false
  | .scoped _ scope => countsAny scope

def includesCount : List (Include Step) → Bool
  | [] => false
  | i :: more => includeCounts i || includesCount more

end

theorem countsAny_eq (steps : List Step) : countsAny steps = steps.any counts := by
  induction steps with
  | nil => rfl
  | cons step more ih => rw [countsAny, ih, List.any_cons]

theorem includesCount_eq (includes : List (Include Step)) :
    includesCount includes = includes.any includeCounts := by
  induction includes with
  | nil => rfl
  | cons i more ih => rw [includesCount, ih, List.any_cons]

theorem countsAny_append {steps more : List Step} (h : countsAny steps = false)
    (h' : countsAny more = false) : countsAny (steps ++ more) = false := by
  rw [countsAny_eq] at h h' ⊢
  rw [List.any_append, h, h']
  rfl

theorem countsAny_map {α : Type} {step : α → Step} {l : List α}
    (h : ∀ a, (step a).counts = false) : countsAny (l.map step) = false := by
  rw [countsAny_eq, List.any_eq_false]
  intro s hs
  obtain ⟨a, -, rfl⟩ := List.mem_map.mp hs
  rw [h a]
  exact Bool.false_ne_true

end Step

theorem Outcome.asked_andThen {o : Outcome} {next : Draft → Outcome} (h : o.asked = [])
    (hnext : ∀ d, (next d).asked = []) : (o.andThen next).asked = [] := by
  unfold andThen
  split
  · exact h
  · simp only [h, hnext, List.append_nil]

theorem Outcome.asked_close (o : Outcome) (d : Draft) (into : Draft → Draft) :
    (o.close d into).asked = o.asked := by
  unfold close
  split <;> rfl

theorem Outcome.asked_ofExcept (d : Draft) (e : Except Failure Draft) :
    (Outcome.ofExcept d e).asked = [] := by
  cases e <;> rfl

namespace Step

variable (source : Source)

mutual

theorem asked_run : ∀ (step : Step), step.counts = false → ∀ d : Draft,
    (run source step d).asked = []
  | .restrict p, _, d => Outcome.asked_ofExcept d _
  | .group c scope, h, d => by
    rw [run, Outcome.asked_close]
    exact asked_runAll scope h _
  | .existing chain c scope, h, d => by
    simp only [run]
    cases source.schema.resolve d.table chain with
    | error f => rfl
    | ok hops =>
      simp only [Outcome.asked_close]
      exact asked_runAll scope h _
  | .load includes, h, d => asked_runIncludes includes h d
  | .order _, _, _ => rfl
  | .limit _, _, _ => rfl
  | .offset _, _, _ => rfl
  | .tableAt chain, _, d => Outcome.asked_ofExcept d _
  | .countRows, h, _ => absurd h.symm Bool.false_ne_true
  | .fail _, _, _ => rfl

theorem asked_runAll : ∀ (steps : List Step), countsAny steps = false → ∀ d : Draft,
    (runAll source steps d).asked = []
  | [], _, _ => rfl
  | step :: more, h, d => by
    obtain ⟨hstep, hmore⟩ := Bool.or_eq_false_iff.mp h
    rw [runAll]
    exact Outcome.asked_andThen (asked_run step hstep d) (asked_runAll more hmore)

theorem asked_runInclude : ∀ (i : Include Step), includeCounts i = false → ∀ d : Draft,
    (runInclude source i d).asked = []
  | .plain chain, _, d => Outcome.asked_ofExcept d _
  | .scoped chain scope, h, d => by
    simp only [runInclude]
    cases source.schema.resolve d.table chain with
    | error f => rfl
    | ok hops =>
      simp only [Outcome.asked_close]
      exact asked_runAll scope h _

theorem asked_runIncludes : ∀ (includes : List (Include Step)), includesCount includes = false →
    ∀ d : Draft, (runIncludes source includes d).asked = []
  | [], _, _ => rfl
  | i :: more, h, d => by
    obtain ⟨hi, hmore⟩ := Bool.or_eq_false_iff.mp h
    rw [runIncludes]
    exact Outcome.asked_andThen (asked_runInclude i hi d) (asked_runIncludes more hmore)

end

end Step

namespace Step

variable (schema : Catalog) (count count' : Sql.Select → Except Failure UInt64)

mutual

theorem run_counter : ∀ (step : Step), step.counts = false → ∀ d : Draft,
    run ⟨schema, count⟩ step d = run ⟨schema, count'⟩ step d
  | .restrict _, _, _ => rfl
  | .group c scope, h, d => by rw [run, run, runAll_counter scope h]
  | .existing chain c scope, h, d => by
    simp only [run]
    cases schema.resolve d.table chain with
    | error f => rfl
    | ok hops => simp only [runAll_counter scope h]
  | .load includes, h, d => runIncludes_counter includes h d
  | .order _, _, _ => rfl
  | .limit _, _, _ => rfl
  | .offset _, _, _ => rfl
  | .tableAt _, _, _ => rfl
  | .countRows, h, _ => absurd h.symm Bool.false_ne_true
  | .fail _, _, _ => rfl

theorem runAll_counter : ∀ (steps : List Step), countsAny steps = false → ∀ d : Draft,
    runAll ⟨schema, count⟩ steps d = runAll ⟨schema, count'⟩ steps d
  | [], _, _ => rfl
  | step :: more, h, d => by
    obtain ⟨hstep, hmore⟩ := Bool.or_eq_false_iff.mp h
    rw [runAll, runAll, run_counter step hstep, funext (runAll_counter more hmore)]

theorem runInclude_counter : ∀ (i : Include Step), includeCounts i = false → ∀ d : Draft,
    runInclude ⟨schema, count⟩ i d = runInclude ⟨schema, count'⟩ i d
  | .plain _, _, _ => rfl
  | .scoped chain scope, h, d => by
    simp only [runInclude]
    cases schema.resolve d.table chain with
    | error f => rfl
    | ok hops => simp only [runAll_counter scope h]

theorem runIncludes_counter : ∀ (includes : List (Include Step)), includesCount includes = false →
    ∀ d : Draft, runIncludes ⟨schema, count⟩ includes d = runIncludes ⟨schema, count'⟩ includes d
  | [], _, _ => rfl
  | i :: more, h, d => by
    obtain ⟨hi, hmore⟩ := Bool.or_eq_false_iff.mp h
    rw [runIncludes, runIncludes, runInclude_counter i hi, funext (runIncludes_counter more hmore)]

end

end Step

namespace Script

variable (separator : Char) (tableAt : String → Except Failure String)

theorem counts_filterStep (f : Filter) : (filterStep separator f).counts = false := by
  unfold filterStep
  cases f.predicate separator <;> rfl

theorem counts_existingStep (c : Connective) (chain table : String) (filters : List Filter) :
    (existingStep separator c chain table filters).counts = false := by
  rw [existingStep, Step.counts]
  refine Step.countsAny_map fun f ↦ ?_
  rw [Step.counts, Step.countsAny, counts_filterStep]
  rfl

theorem countsAny_relatedSteps (c : Connective) (filters : List (String × List Filter)) :
    Step.countsAny (relatedSteps separator tableAt c filters) = false := by
  unfold relatedSteps
  split
  · rfl
  · split
    · rfl
    · rename_i named _
      rw [Step.countsAny, Step.counts, Step.countsAny_map]
      · rfl
      · intro group
        exact counts_existingStep separator c group.1 group.2.1 group.2.2

theorem countsAny_includeSteps (r : Request) :
    Step.countsAny (includeSteps tableAt r) = false := by
  have hinclude (named : List (String × String × List Order)) (chain : String) :
      Step.includeCounts (includeOf named chain) = false := by
    unfold includeOf
    split
    · rfl
    · exact Step.countsAny_map fun _ ↦ rfl
  unfold includeSteps
  split
  · rfl
  · split
    · rfl
    · rw [Step.countsAny, Step.counts, Step.includesCount_eq, Step.countsAny, Bool.or_false,
        List.any_eq_false]
      intro i hi
      obtain ⟨chain, -, rfl⟩ := List.mem_map.mp hi
      rw [hinclude]
      exact Bool.false_ne_true

theorem countsAny_ofRequest (r : Request) :
    Step.countsAny (ofRequest separator tableAt r).steps = false := by
  have hroots : Step.countsAny (r.rootFilters.map (filterStep separator)) = false :=
    Step.countsAny_map (counts_filterStep separator)
  have horders : Step.countsAny (r.rootOrders.map Step.order) = false :=
    Step.countsAny_map fun _ ↦ rfl
  have hpage : Step.countsAny (pageSteps r.page?) = false := by
    cases r.page? <;> rfl
  have hand := countsAny_relatedSteps separator tableAt .and r.conjoined
  have hor := countsAny_relatedSteps separator tableAt .or r.disjoined
  have hincludes := countsAny_includeSteps tableAt r
  have hlistings := Step.countsAny_append hroots horders
  have hrelated := Step.countsAny_append (Step.countsAny_append hlistings hand) hor
  exact Step.countsAny_append (Step.countsAny_append hrelated hincludes) hpage

end Script

section Plan

variable (separator : Char) (source : Source) (table : String) (r : Request)

def outcome : Outcome :=
  Step.runAll source (Script.ofRequest separator (source.schema.tableAt table) r).steps { table }

theorem asked_outcome : (outcome separator source table r).asked = [] :=
  Step.asked_runAll source _ (Script.countsAny_ofRequest separator _ r) _

theorem outcome_counter (count : Sql.Select → Except Failure UInt64) :
    outcome separator ⟨source.schema, count⟩ table r = outcome separator source table r :=
  Step.runAll_counter _ _ _ _ (Script.countsAny_ofRequest separator _ r) _

variable {separator source table r}

theorem firstFailure?_of_outcome (h : (outcome separator source table r).failure? = none) :
    Step.firstFailure? (Script.ofRequest separator (source.schema.tableAt table) r).steps = none :=
  Step.firstFailure?_of_runAll source _ _ h

theorem script_of_outcome (h : (outcome separator source table r).failure? = none) :
    Script.ofRequest separator (source.schema.tableAt table) r =
      Script.ofRequest separator (.ok ∘ Script.found (source.schema.tableAt table)) r :=
  Script.ofRequest_found (firstFailure?_of_outcome h)

theorem plan_of_failure {f : Failure} (h : (outcome separator source table r).failure? = some f) :
    plan separator source table r = ⟨.error f, []⟩ := by
  have hasked := asked_outcome separator source table r
  unfold outcome at h hasked
  simp only [plan_eq, Script.plan, h, hasked]

theorem plan_of_page {w : Window} (h : (outcome separator source table r).failure? = none)
    (hw : r.page? = some w) : plan separator source table r =
      ⟨.ok ((outcome separator source table r).draft.page w.limit w.page), []⟩ := by
  have hasked := asked_outcome separator source table r
  have hpage : (Script.ofRequest separator (source.schema.tableAt table) r).page? = some w := hw
  unfold outcome at h hasked ⊢
  simp only [plan_eq, Script.plan, h, hasked, hpage]

theorem plan_of_count (h : (outcome separator source table r).failure? = none)
    (hw : r.page? = none) : plan separator source table r =
      ⟨(source.count (outcome separator source table r).draft.countSelect).map fun n ↦
          (outcome separator source table r).draft.page n 1,
        [(outcome separator source table r).draft.countSelect]⟩ := by
  have hasked := asked_outcome separator source table r
  have hpage : (Script.ofRequest separator (source.schema.tableAt table) r).page? = none := hw
  unfold outcome at h hasked ⊢
  simp only [plan_eq, Script.plan, h, hasked, hpage, List.nil_append]

end Plan

end Listing
