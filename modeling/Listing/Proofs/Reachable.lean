import Listing.Proofs.Steps

namespace Listing

open Sql

/-- The drafts that steps lead to, whether they succeed or fail. -/
inductive Draft.Reachable (source : Source) : Draft → Prop
  | fresh (table : String) : Reachable source { table }
  | step (step : Step) {d : Draft} : Reachable source d →
      Reachable source (step.run source d).draft

/-- The drafts that single changes lead to. A scope leaves a draft of its own, which is built in
the same way. -/
inductive Draft.Built (source : Source) : Draft → Prop
  | fresh (table : String) : Built source { table }
  | test {d : Draft} {t : Test} {j : Junction} (c : Connective) : Built source d →
      d.tested source.schema t = .ok j → Built source (d.push c j)
  | group {d inner : Draft} (c : Connective) : Built source d → Built source inner →
      inner.table = d.table → Built source (d.pushGroup c inner)
  | existing {d inner : Draft} {chain : String} {hops : List Relation} (c : Connective) :
      Built source d → source.schema.resolve d.table chain = .ok hops → Built source inner →
      inner.table = Catalog.lastTable d.table hops →
      Built source (d.push c (Draft.existence hops inner.condition?))
  | order {d : Draft} (o : Order) : Built source d → Built source (d.order o)
  | limit {d : Draft} (n : UInt64) : Built source d → Built source { d with limit? := some n }
  | offset {d : Draft} (n : UInt64) : Built source d → Built source { d with offset? := some n }
  | route {d : Draft} {chain : String} {hops : List Relation} : Built source d →
      source.schema.resolve d.table chain = .ok hops →
      Built source (d.loadRoute (Draft.route chain hops))
  | scope {d inner : Draft} {chain : String} {hops : List Relation} : Built source d →
      source.schema.resolve d.table chain = .ok hops → Built source inner →
      inner.table = Catalog.lastTable d.table hops →
      Built source (d.loadScope (Draft.route chain hops) inner)

namespace Step

variable {source : Source}

theorem runAll_table (steps : List Step) (d : Draft) :
    (runAll source steps d).draft.table = d.table := by
  induction steps generalizing d with
  | nil => rfl
  | cons step more ih =>
    rw [runAll]
    rcases Outcome.draft_andThen_or (run source step d) (runAll source more) with h | h
    · rw [h, run_table]
    · rw [h, ih, run_table]

mutual

theorem built_run : ∀ (step : Step) {d : Draft}, d.Built source →
    (run source step d).draft.Built source
  | .restrict p, d, h => by
    simp only [run, Draft.restrict]
    cases ht : d.tested source.schema p.test with
    | error f => exact h
    | ok j => exact h.test p.connective ht
  | .group c scope, d, h => by
    have hinner := built_runAll scope (.fresh d.table)
    rw [run]
    rcases Outcome.draft_close_or (runAll source scope { table := d.table }) d
      (fun inner ↦ d.pushGroup c inner) with hd | hd
    · rwa [hd]
    · rw [hd]
      exact h.group c hinner (runAll_table scope _)
  | .existing chain c scope, d, h => by
    simp only [run]
    cases hr : source.schema.resolve d.table chain with
    | error f => exact h
    | ok hops =>
      have hinner := built_runAll scope (.fresh (Catalog.lastTable d.table hops))
      rcases Outcome.draft_close_or
        (runAll source scope { table := Catalog.lastTable d.table hops }) d
        (fun inner ↦ d.push c (Draft.existence hops inner.condition?)) with hd | hd
      · simpa only [hd] using h
      · simp only [hd]
        exact h.existing c hr hinner (runAll_table scope _)
  | .load includes, d, h => built_runIncludes includes h
  | .order o, d, h => h.order o
  | .limit n, d, h => h.limit n
  | .offset n, d, h => h.offset n
  | .tableAt chain, d, h => by
    simp only [run]
    cases source.schema.tableAt d.table chain <;> exact h
  | .countRows, d, h => by
    simp only [run]
    cases source.count d.countSelect <;> exact h
  | .fail f, d, h => h

theorem built_runAll : ∀ (steps : List Step) {d : Draft}, d.Built source →
    (runAll source steps d).draft.Built source
  | [], d, h => h
  | step :: more, d, h => by
    have hstep := built_run step h
    have hmore := built_runAll more hstep
    rw [runAll]
    rcases Outcome.draft_andThen_or (run source step d) (runAll source more) with hd | hd
    · rwa [hd]
    · rwa [hd]

theorem built_runInclude : ∀ (i : Include Step) {d : Draft}, d.Built source →
    (runInclude source i d).draft.Built source
  | .plain chain, d, h => by
    simp only [runInclude]
    cases hr : source.schema.resolve d.table chain with
    | error f => exact h
    | ok hops => exact h.route hr
  | .scoped chain scope, d, h => by
    simp only [runInclude]
    cases hr : source.schema.resolve d.table chain with
    | error f => exact h
    | ok hops =>
      obtain ⟨loads, hroute⟩ := d.loadRoute_eq (Draft.route chain hops)
      have hloaded : (d.loadRoute (Draft.route chain hops)).Built source := h.route hr
      have htable : (d.loadRoute (Draft.route chain hops)).table = d.table := by rw [hroute]
      have hinner := built_runAll scope (.fresh (Catalog.lastTable d.table hops))
      rcases Outcome.draft_close_or
        (runAll source scope { table := Catalog.lastTable d.table hops })
        (d.loadRoute (Draft.route chain hops)) (fun inner ↦
          (d.loadRoute (Draft.route chain hops)).loadScope (Draft.route chain hops) inner)
        with hd | hd
      · simpa only [hd] using hloaded
      · simp only [hd]
        refine hloaded.scope (htable ▸ hr) hinner ?_
        rw [htable]
        exact runAll_table scope _

theorem built_runIncludes : ∀ (includes : List (Include Step)) {d : Draft}, d.Built source →
    (runIncludes source includes d).draft.Built source
  | [], d, h => h
  | i :: more, d, h => by
    have hfirst := built_runInclude i h
    have hmore := built_runIncludes more hfirst
    rw [runIncludes]
    rcases Outcome.draft_andThen_or (runInclude source i d) (runIncludes source more) with hd | hd
    · rwa [hd]
    · rwa [hd]

end

end Step

theorem Draft.Reachable.built {source : Source} {d : Draft} (h : d.Reachable source) :
    d.Built source := by
  induction h with
  | fresh table => exact .fresh table
  | step step _ ih => exact Step.built_run step ih

theorem Draft.Reachable.runAll {source : Source} (steps : List Step) {d : Draft}
    (h : d.Reachable source) : (Step.runAll source steps d).draft.Reachable source := by
  induction steps generalizing d with
  | nil => exact h
  | cons step more ih =>
    have hstep : (step.run source d).draft.Reachable source := h.step step
    rw [Step.runAll]
    rcases Outcome.draft_andThen_or (step.run source d) (Step.runAll source more) with hd | hd
    · rwa [hd]
    · rw [hd]
      exact ih hstep

end Listing
