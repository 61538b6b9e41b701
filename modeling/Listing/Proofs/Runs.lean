import Listing.Proofs.Drafting
import Listing.Proofs.Leaves

namespace Listing

namespace Step

variable (source : Source)

mutual

theorem failure?_of_run : ∀ (step : Step) (d : Draft), (run source step d).failure? = none →
    failure? step = none
  | .group c scope, d, h => by
    simp only [run, Outcome.failure?_close] at h
    exact firstFailure?_of_runAll scope _ h
  | .existing chain c scope, d, h => by
    simp only [run] at h
    cases hr : source.schema.resolve d.table chain with
    | error f => simp [hr] at h
    | ok hops =>
      simp only [hr, Outcome.failure?_close] at h
      exact firstFailure?_of_runAll scope _ h
  | .load includes, d, h => includesFailure?_of_runIncludes includes d h
  | .fail f, d, h => by simp [run] at h
  | .restrict _, _, _ => rfl
  | .order _, _, _ => rfl
  | .limit _, _, _ => rfl
  | .offset _, _, _ => rfl
  | .tableAt _, _, _ => rfl
  | .countRows, _, _ => rfl

theorem firstFailure?_of_runAll : ∀ (steps : List Step) (d : Draft),
    (runAll source steps d).failure? = none → firstFailure? steps = none
  | [], _, _ => rfl
  | step :: more, d, h => by
    obtain ⟨hstep, hmore⟩ := Outcome.failure?_andThen.mp h
    rw [firstFailure?, failure?_of_run step d hstep, firstFailure?_of_runAll more _ hmore,
      Option.or_none]

theorem includeFailure?_of_runInclude : ∀ (i : Include Step) (d : Draft),
    (runInclude source i d).failure? = none → includeFailure? i = none
  | .plain _, _, _ => rfl
  | .scoped chain scope, d, h => by
    simp only [runInclude] at h
    cases hr : source.schema.resolve d.table chain with
    | error f => simp [hr] at h
    | ok hops =>
      simp only [hr, Outcome.failure?_close] at h
      exact firstFailure?_of_runAll scope _ h

theorem includesFailure?_of_runIncludes : ∀ (includes : List (Include Step)) (d : Draft),
    (runIncludes source includes d).failure? = none → includesFailure? includes = none
  | [], _, _ => rfl
  | i :: more, d, h => by
    obtain ⟨hi, hmore⟩ := Outcome.failure?_andThen.mp h
    rw [includesFailure?, includeFailure?_of_runInclude i d hi,
      includesFailure?_of_runIncludes more _ hmore, Option.or_none]

end

theorem firstFailure?_append (steps more : List Step) :
    firstFailure? (steps ++ more) = (firstFailure? steps).or (firstFailure? more) := by
  simp only [firstFailure?_eq, leavesAll_append, List.findSome?_append]

end Step

namespace Script

variable {separator : Char} {tableAt : String → Except Failure String}

/-- The table behind a chain, which does not count where there is none. -/
def found (tableAt : String → Except Failure String) (chain : String) : String :=
  (tableAt chain).toOption.getD ""

theorem found_of_resolve {catalog : Catalog} {table chain : String} {hops : List Relation}
    (h : catalog.resolve table chain = .ok hops) :
    found (catalog.tableAt table) chain = Catalog.lastTable table hops := by
  rw [found, Catalog.tableAt, h]
  rfl

theorem withTables_congr {α : Type} {tableAt tableAt' : String → Except Failure String}
    {items : List (String × α)} (h : ∀ item ∈ items, tableAt item.1 = tableAt' item.1) :
    withTables tableAt items = withTables tableAt' items := by
  induction items with
  | nil => rfl
  | cons item more ih =>
    obtain ⟨hitem, hmore⟩ := List.forall_mem_cons.mp h
    rw [withTables_cons, withTables_cons, hitem, ih hmore]

theorem tableAt_of_withTables {α : Type} {items : List (String × α)}
    {named : List (String × String × α)} (h : withTables tableAt items = .ok named) :
    ∀ item ∈ items, tableAt item.1 = .ok (found tableAt item.1) := by
  induction items generalizing named with
  | nil => exact fun _ hitem ↦ absurd hitem List.not_mem_nil
  | cons item more ih =>
    rw [withTables_cons] at h
    cases htable : tableAt item.1 with
    | error f => simp [htable, Except.bind] at h
    | ok table =>
      cases hmore : withTables tableAt more with
      | error f => simp [htable, hmore, Except.map, Except.bind] at h
      | ok later =>
        refine List.forall_mem_cons.mpr ⟨?_, ih hmore⟩
        rw [found, htable]
        rfl

theorem withTables_found {α : Type} {items : List (String × α)}
    {named : List (String × String × α)} (h : withTables tableAt items = .ok named) :
    withTables (.ok ∘ found tableAt) items = .ok named := by
  rw [← h]
  exact (withTables_congr (tableAt_of_withTables h)).symm

section Lookups

variable {r : Request}

theorem ofRequest_congr {tableAt' : String → Except Failure String}
    (h : ∀ chain ∈ lookups r, tableAt chain = tableAt' chain) :
    ofRequest separator tableAt r = ofRequest separator tableAt' r := by
  simp only [lookups, List.forall_mem_append, List.forall_mem_map] at h
  obtain ⟨⟨hand, hor⟩, horders⟩ := h
  simp only [ofRequest, relatedSteps, includeSteps, withTables_congr hand, withTables_congr hor,
    withTables_congr horders]

theorem tableAt_of_relatedSteps {c : Connective} {filters : List (String × List Filter)}
    (h : Step.firstFailure? (relatedSteps separator tableAt c filters) = none) :
    ∀ group ∈ filters, tableAt group.1 = .ok (found tableAt group.1) := by
  unfold relatedSteps at h
  by_cases hempty : filters.isEmpty
  · rw [List.isEmpty_iff.mp hempty]
    exact fun _ hgroup ↦ absurd hgroup List.not_mem_nil
  · cases hw : withTables tableAt filters with
    | error f => simp [hempty, hw, Step.firstFailure?, Step.failure?] at h
    | ok named => exact tableAt_of_withTables hw

theorem tableAt_of_includeSteps (h : Step.firstFailure? (includeSteps tableAt r) = none) :
    ∀ item ∈ r.relatedOrders, tableAt item.1 = .ok (found tableAt item.1) := by
  unfold includeSteps at h
  by_cases hempty : r.loadedChains.isEmpty
  · rw [Request.relatedOrders_eq_nil (List.isEmpty_iff.mp hempty)]
    exact fun _ hitem ↦ absurd hitem List.not_mem_nil
  · cases hw : withTables tableAt r.relatedOrders with
    | error f => simp [hempty, hw, Step.firstFailure?, Step.failure?] at h
    | ok named => exact tableAt_of_withTables hw

theorem tableAt_of_lookups (h : Step.firstFailure? (ofRequest separator tableAt r).steps = none) :
    ∀ chain ∈ lookups r, tableAt chain = .ok (found tableAt chain) := by
  simp only [ofRequest, Step.firstFailure?_append, Option.or_eq_none_iff, and_assoc] at h
  obtain ⟨-, -, hand, hor, hincludes, -⟩ := h
  simp only [lookups, List.forall_mem_append, List.forall_mem_map]
  exact ⟨⟨tableAt_of_relatedSteps hand, tableAt_of_relatedSteps hor⟩,
    tableAt_of_includeSteps hincludes⟩

theorem ofRequest_found (h : Step.firstFailure? (ofRequest separator tableAt r).steps = none) :
    ofRequest separator tableAt r = ofRequest separator (.ok ∘ found tableAt) r :=
  ofRequest_congr (tableAt_of_lookups h)

end Lookups

end Script

theorem plan_ok {separator : Char} {source : Source} {table : String} {r : Request} {page : Page}
    (h : (plan separator source table r).result = .ok page) {script : Script}
    (hscript : Script.ofRequest separator (source.schema.tableAt table) r = script) :
    (Step.runAll source script.steps { table }).failure? = none ∧
      ∃ limit number, page = (Step.runAll source script.steps { table }).draft.page limit number := by
  subst hscript
  rw [plan_eq] at h
  simp only [Script.plan] at h
  split at h
  · simp at h
  · rename_i hnone _
    exact ⟨hnone, _, _, (Except.ok.inj h).symm⟩
  · rename_i hnone _
    refine ⟨hnone, ?_⟩
    generalize source.count _ = counted at h
    cases counted with
    | error e => simp [Except.map] at h
    | ok n => exact ⟨n, 1, (Except.ok.inj h).symm⟩

end Listing
