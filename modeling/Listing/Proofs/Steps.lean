import Listing.Draft.Step
import Listing.Proofs.Existence

namespace Listing

open Sql

namespace Outcome

theorem failure?_andThen {o : Outcome} {next : Draft → Outcome} :
    (o.andThen next).failure? = none ↔ o.failure? = none ∧ (next o.draft).failure? = none := by
  unfold andThen
  cases h : o.failure? <;> simp [h]

theorem draft_andThen {o : Outcome} (next : Draft → Outcome) (h : o.failure? = none) :
    (o.andThen next).draft = (next o.draft).draft := by
  simp only [andThen, h]

theorem failure?_close (o : Outcome) (d : Draft) (into : Draft → Draft) :
    (o.close d into).failure? = o.failure? := by
  unfold close
  cases h : o.failure? <;> simp

theorem draft_close {o : Outcome} (d : Draft) (into : Draft → Draft) (h : o.failure? = none) :
    (o.close d into).draft = into o.draft := by
  simp only [close, h]

theorem draft_close_or (o : Outcome) (d : Draft) (into : Draft → Draft) :
    (o.close d into).draft = d ∨ (o.close d into).draft = into o.draft := by
  unfold close
  split
  · exact .inl rfl
  · exact .inr rfl

theorem draft_andThen_or (o : Outcome) (next : Draft → Outcome) :
    (o.andThen next).draft = o.draft ∨ (o.andThen next).draft = (next o.draft).draft := by
  unfold andThen
  split
  · exact .inl rfl
  · exact .inr rfl

end Outcome

theorem Load.mem_put {load other : Load} {loads : List Load} (h : other ∈ put load loads) :
    other = load ∨ other ∈ loads := by
  induction loads with
  | nil => exact .inl (List.mem_singleton.mp h)
  | cons first more ih =>
    rw [put] at h
    split at h
    · exact (List.mem_cons.mp h).imp_right (List.mem_cons_of_mem _)
    · rcases List.mem_cons.mp h with rfl | h
      · exact .inr List.mem_cons_self
      · exact (ih h).imp_right (List.mem_cons_of_mem _)

namespace Draft

theorem tested_table (d : Draft) (catalog : Catalog) (test : Test) :
    d.tested catalog test = Draft.tested { table := d.table } catalog test := by
  cases test <;> rfl

theorem condition?_congr {d e : Draft} (h : d.clauses = e.clauses) :
    d.condition? = e.condition? := by
  simp only [condition?, h]

theorem pushGroup_eq (d : Draft) (c : Connective) (inner : Draft) :
    d.pushGroup c inner =
      { d with clauses := d.clauses ++ inner.condition?.toList.map (Clause.mk c) } := by
  unfold pushGroup
  cases inner.condition? with
  | none => simp only [Option.toList_none, List.map_nil, List.append_nil]
  | some j => rfl

def append (d : Draft) (added : List Clause) : Draft :=
  { d with clauses := d.clauses ++ added }

theorem append_nil (d : Draft) : d.append [] = d := by
  rw [append, List.append_nil]

def loadStation (d : Draft) (station : String × Relation) : Draft :=
  if d.hasLoad station.1 then d
  else
    { d with loads := d.loads ++ [.ofHop station.1 station.2 { table := station.2.target }] }

theorem loadRoute_cons (d : Draft) (station : String × Relation)
    (more : List (String × Relation)) :
    d.loadRoute (station :: more) = (d.loadStation station).loadRoute more := rfl

theorem loadStation_eq (d : Draft) (station : String × Relation) :
    ∃ loads, d.loadStation station = { d with loads } := by
  unfold loadStation
  split
  · exact ⟨d.loads, rfl⟩
  · exact ⟨_, rfl⟩

theorem loadRoute_eq (d : Draft) (route : List (String × Relation)) :
    ∃ loads, d.loadRoute route = { d with loads } := by
  induction route generalizing d with
  | nil => exact ⟨d.loads, rfl⟩
  | cons station more ih =>
    obtain ⟨loads, hstation⟩ := d.loadStation_eq station
    rw [loadRoute_cons, hstation]
    exact ih { d with loads }

theorem mem_loadRoute {d : Draft} {route : List (String × Relation)} {load : Load}
    (h : load ∈ (d.loadRoute route).loads) : load ∈ d.loads ∨
      ∃ path hop, load = .ofHop path hop { table := hop.target } := by
  induction route generalizing d with
  | nil => exact .inl h
  | cons station more ih =>
    rw [loadRoute_cons] at h
    rcases ih h with hload | hbare
    · unfold loadStation at hload
      split at hload
      · exact .inl hload
      · rcases List.mem_append.mp hload with hload | hload
        · exact .inl hload
        · exact .inr ⟨_, _, List.mem_singleton.mp hload⟩
    · exact .inr hbare

theorem loadRoute_table (d : Draft) (route : List (String × Relation)) :
    (d.loadRoute route).table = d.table := by
  obtain ⟨loads, h⟩ := d.loadRoute_eq route
  rw [h]

theorem loadScope_eq (d : Draft) (route : List (String × Relation)) (inner : Draft) :
    ∃ loads, d.loadScope route inner = { d with loads } := by
  unfold loadScope
  split
  · exact ⟨_, rfl⟩
  · exact ⟨d.loads, rfl⟩

theorem mem_loadScope {d inner : Draft} {route : List (String × Relation)} {load : Load}
    (h : load ∈ (d.loadScope route inner).loads) : load ∈ d.loads ∨
      ∃ path hop, route.getLast? = some (path, hop) ∧
        load = .ofHop path hop inner.rowsSelect := by
  unfold loadScope at h
  cases hlast : route.getLast? with
  | none =>
    rw [hlast] at h
    exact .inl h
  | some station =>
    rw [hlast] at h
    rcases Load.mem_put h with rfl | hload
    · exact .inr ⟨station.1, station.2, rfl, rfl⟩
    · exact .inl hload

end Draft

/-- What is done to all queries of a table alike. -/
structure Effect where
  added : List Clause := []
  asked : List Select := []
  failure? : Option Failure := none

def Effect.on (e : Effect) (d : Draft) : Outcome := ⟨d.append e.added, e.asked, e.failure?⟩

def Effect.ofScope (o : Outcome) (added : Draft → List Clause) : Effect where
  added := if o.failure? = none then added o.draft else []
  asked := o.asked
  failure? := o.failure?

theorem Outcome.close_eq_on (o : Outcome) (d : Draft) {into : Draft → Draft}
    {added : Draft → List Clause} (h : ∀ inner, into inner = d.append (added inner)) :
    o.close d into = (Effect.ofScope o added).on d := by
  unfold close Effect.ofScope
  cases o.failure? with
  | none => simp only [Effect.on, h, if_pos]
  | some f => simp only [Effect.on, reduceCtorEq, if_false, Draft.append_nil]

namespace Step

variable (source : Source)

theorem runInclude_eq (i : Include Step) (d : Draft) :
    ∃ loads, (runInclude source i d).draft = { d with loads } := by
  match i with
  | .plain chain =>
    simp only [runInclude]
    cases source.schema.resolve d.table chain with
    | error f => exact ⟨d.loads, rfl⟩
    | ok hops => exact d.loadRoute_eq _
  | .scoped chain scope =>
    simp only [runInclude]
    cases source.schema.resolve d.table chain with
    | error f => exact ⟨d.loads, rfl⟩
    | ok hops =>
      obtain ⟨loads, hroute⟩ := d.loadRoute_eq (Draft.route chain hops)
      simp only [hroute]
      refine (Outcome.draft_close_or _ _ _).elim (fun h ↦ ⟨loads, h⟩) fun h ↦ ?_
      rw [h]
      exact Draft.loadScope_eq { d with loads } _ _

theorem runIncludes_eq (includes : List (Include Step)) (d : Draft) :
    ∃ loads, (runIncludes source includes d).draft = { d with loads } := by
  induction includes generalizing d with
  | nil => exact ⟨d.loads, rfl⟩
  | cons i more ih =>
    obtain ⟨loads, hfirst⟩ := runInclude_eq source i d
    obtain ⟨loads', hmore⟩ := ih (runInclude source i d).draft
    refine (Outcome.draft_andThen_or _ _).elim (fun h ↦ ⟨loads, h.trans hfirst⟩) fun h ↦ ?_
    exact ⟨loads', by rw [runIncludes, h, hmore, hfirst]⟩

theorem runInclude_table (i : Include Step) (d : Draft) :
    (runInclude source i d).draft.table = d.table := by
  obtain ⟨loads, h⟩ := runInclude_eq source i d
  rw [h]

theorem runIncludes_table (includes : List (Include Step)) (d : Draft) :
    (runIncludes source includes d).draft.table = d.table := by
  obtain ⟨loads, h⟩ := runIncludes_eq source includes d
  rw [h]

/-- The steps that restrict a query: a test, a filter that is compiled first, a group and an
existing chain. Their scopes may hold any steps. -/
inductive IsRestriction : Step → Prop
  | test (p : Predicate) : IsRestriction (.restrict p)
  | filter (separator : Char) (f : Filter) : IsRestriction (Script.filterStep separator f)
  | group (c : Connective) (scope : List Step) : IsRestriction (.group c scope)
  | existing (chain : String) (c : Connective) (scope : List Step) :
      IsRestriction (.existing chain c scope)

def IsIdle (source : Source) (table : String) : Step → Prop
  | .group _ scope => (runAll source scope { table }).draft.clauses = []
  | _ => False

/-- A step that fails adds nothing, and any other adds one clause, unless it is idle. -/
structure AddsOnce (source : Source) (table : String) (step : Step) (e : Effect) : Prop where
  run : ∀ d : Draft, d.table = table → step.run source d = e.on d
  failed : e.failure? ≠ none → e.added = []
  idle : step.IsIdle source table → e.added = []
  busy : e.failure? = none → ¬ step.IsIdle source table → ∃ clause, e.added = [clause]

section Restrictions

variable {source} {table : String}

theorem AddsOnce.draft_of_failure {step : Step} {d : Draft} {e : Effect}
    (h : step.AddsOnce source d.table e) {f : Failure}
    (hf : (step.run source d).failure? = some f) : (step.run source d).draft = d := by
  rw [h.run d rfl] at hf ⊢
  have hadded := h.failed fun hn ↦ Option.some_ne_none f (hf.symm.trans hn)
  rw [Effect.on, hadded, d.append_nil]

theorem exists_addsOnce_fail {step : Step} {f : Failure} (hidle : ¬ step.IsIdle source table)
    (h : ∀ d : Draft, d.table = table → step.run source d = { draft := d, failure? := some f }) :
    ∃ e, step.AddsOnce source table e := by
  refine ⟨{ failure? := some f }, ?_, fun _ ↦ rfl, fun hi ↦ absurd hi hidle, fun hn ↦ ?_⟩
  · intro d hd
    rw [h d hd, Effect.on, d.append_nil]
  · exact absurd hn (Option.some_ne_none f)

theorem exists_addsOnce_test (p : Predicate) : ∃ e, (restrict p).AddsOnce source table e := by
  have hrun (d : Draft) (hd : d.table = table) : run source (.restrict p) d =
      .ofExcept d ((Draft.tested { table } source.schema p.test).map (d.push p.connective)) := by
    rw [run, Draft.restrict, d.tested_table, hd]
  cases ht : Draft.tested { table } source.schema p.test with
  | error f =>
    refine exists_addsOnce_fail (f := f) (fun h ↦ h) fun d hd ↦ ?_
    rw [hrun d hd, ht]
    rfl
  | ok j =>
    refine ⟨{ added := [⟨p.connective, j⟩] }, fun d hd ↦ ?_, fun h ↦ absurd rfl h, False.elim,
      fun _ _ ↦ ⟨_, rfl⟩⟩
    rw [hrun d hd, ht]
    rfl

theorem exists_addsOnce_filter (separator : Char) (f : Filter) :
    ∃ e, (Script.filterStep separator f).AddsOnce source table e := by
  unfold Script.filterStep
  cases f.predicate separator with
  | ok p => exact exists_addsOnce_test p
  | error failure => exact exists_addsOnce_fail (fun h ↦ h) fun d hd ↦ rfl

theorem exists_addsOnce_group (c : Connective) (scope : List Step) :
    ∃ e, (group c scope).AddsOnce source table e := by
  let o := runAll source scope { table }
  refine ⟨.ofScope o fun inner ↦ inner.condition?.toList.map (Clause.mk c), ?_, ?_, ?_, ?_⟩
  · intro d hd
    rw [run, hd]
    exact o.close_eq_on d (d.pushGroup_eq c)
  · exact fun hf ↦ if_neg hf
  · intro hidle
    have hnone : o.draft.condition? = none := Draft.condition?_eq_none.mpr hidle
    simp only [Effect.ofScope, hnone, Option.toList_none, List.map_nil, ite_self]
  · intro hn hbusy
    obtain ⟨j, hj⟩ : ∃ j, o.draft.condition? = some j :=
      Option.ne_none_iff_exists'.mp (mt Draft.condition?_eq_none.mp hbusy)
    refine ⟨⟨c, j⟩, (if_pos hn).trans ?_⟩
    rw [hj]
    rfl

theorem exists_addsOnce_existing (chain : String) (c : Connective) (scope : List Step) :
    ∃ e, (existing chain c scope).AddsOnce source table e := by
  cases hr : source.schema.resolve table chain with
  | error f =>
    refine exists_addsOnce_fail (f := f) (fun h ↦ h) fun d hd ↦ ?_
    rw [run, hd, hr]
  | ok hops =>
    let o := runAll source scope { table := Catalog.lastTable table hops }
    refine ⟨.ofScope o fun inner ↦ [⟨c, Draft.existence hops inner.condition?⟩], ?_, ?_, ?_, ?_⟩
    · intro d hd
      rw [run, hd, hr]
      exact o.close_eq_on d fun _ ↦ rfl
    · exact fun hf ↦ if_neg hf
    · exact False.elim
    · exact fun hn _ ↦ ⟨_, if_pos hn⟩

theorem IsRestriction.exists_addsOnce {step : Step} (h : step.IsRestriction) (source : Source)
    (table : String) : ∃ e, step.AddsOnce source table e := by
  cases h with
  | test p => exact exists_addsOnce_test p
  | filter separator f => exact exists_addsOnce_filter separator f
  | group c scope => exact exists_addsOnce_group c scope
  | existing chain c scope => exact exists_addsOnce_existing chain c scope

theorem IsRestriction.draft_eq {step : Step} (h : step.IsRestriction) (source : Source)
    (d : Draft) : ∃ clauses, (run source step d).draft = { d with clauses } := by
  obtain ⟨e, he⟩ := h.exists_addsOnce source d.table
  exact ⟨d.clauses ++ e.added, congrArg Outcome.draft (he.run d rfl)⟩

end Restrictions

theorem run_table (step : Step) (d : Draft) : (run source step d).draft.table = d.table := by
  cases step with
  | restrict p =>
    obtain ⟨clauses, h⟩ := (IsRestriction.test p).draft_eq source d
    rw [h]
  | group c scope =>
    obtain ⟨clauses, h⟩ := (IsRestriction.group c scope).draft_eq source d
    rw [h]
  | existing chain c scope =>
    obtain ⟨clauses, h⟩ := (IsRestriction.existing chain c scope).draft_eq source d
    rw [h]
  | load includes =>
    obtain ⟨loads, h⟩ := runIncludes_eq source includes d
    simp only [run, h]
  | tableAt chain =>
    simp only [run]
    cases source.schema.tableAt d.table chain <;> rfl
  | countRows =>
    simp only [run]
    cases source.count d.countSelect <;> rfl
  | order o => rfl
  | limit n => rfl
  | offset n => rfl
  | fail f => rfl

def order? : Step → Option Order
  | .order o => some o
  | _ => none

theorem run_frame (step : Step) (d : Draft) :
    (run source step d).draft.orders = d.orders ++ step.order?.toList ∧
      ((∀ includes, step ≠ .load includes) → (run source step d).draft.loads = d.loads) := by
  have hsame : d.orders = d.orders ++ [] := (List.append_nil _).symm
  cases step with
  | restrict p =>
    obtain ⟨clauses, h⟩ := (IsRestriction.test p).draft_eq source d
    rw [h]
    exact ⟨hsame, fun _ ↦ rfl⟩
  | group c scope =>
    obtain ⟨clauses, h⟩ := (IsRestriction.group c scope).draft_eq source d
    rw [h]
    exact ⟨hsame, fun _ ↦ rfl⟩
  | existing chain c scope =>
    obtain ⟨clauses, h⟩ := (IsRestriction.existing chain c scope).draft_eq source d
    rw [h]
    exact ⟨hsame, fun _ ↦ rfl⟩
  | load includes =>
    obtain ⟨loads, h⟩ := runIncludes_eq source includes d
    rw [run, h]
    exact ⟨hsame, fun hload ↦ absurd rfl (hload includes)⟩
  | tableAt chain =>
    simp only [run]
    cases source.schema.tableAt d.table chain <;> exact ⟨hsame, fun _ ↦ rfl⟩
  | countRows =>
    simp only [run]
    cases source.count d.countSelect <;> exact ⟨hsame, fun _ ↦ rfl⟩
  | order o => exact ⟨rfl, fun _ ↦ rfl⟩
  | limit n => exact ⟨hsame, fun _ ↦ rfl⟩
  | offset n => exact ⟨hsame, fun _ ↦ rfl⟩
  | fail f => exact ⟨hsame, fun _ ↦ rfl⟩

variable {source}

def Succeeds (source : Source) (table : String) (step : Step) : Prop :=
  ∃ d : Draft, d.table = table ∧ (run source step d).failure? = none

theorem succeeds_of_mem {steps : List Step} {d : Draft}
    (h : (runAll source steps d).failure? = none) :
    ∀ step ∈ steps, step.Succeeds source d.table := by
  induction steps generalizing d with
  | nil => exact fun _ hs ↦ absurd hs List.not_mem_nil
  | cons first more ih =>
    obtain ⟨hfirst, hmore⟩ := Outcome.failure?_andThen.mp h
    refine List.forall_mem_cons.mpr ⟨⟨d, rfl, hfirst⟩, ?_⟩
    simpa only [run_table] using ih hmore

theorem Succeeds.of_group {table : String} {c : Connective} {scope : List Step}
    (h : (Step.group c scope).Succeeds source table) :
    ∀ step ∈ scope, step.Succeeds source table := by
  obtain ⟨d, rfl, hrun⟩ := h
  rw [run, Outcome.failure?_close] at hrun
  exact succeeds_of_mem (d := { table := d.table }) hrun

theorem Succeeds.of_existing {table chain : String} {c : Connective} {scope : List Step}
    (h : (Step.existing chain c scope).Succeeds source table) :
    ∃ hops, source.schema.resolve table chain = .ok hops ∧
      ∀ step ∈ scope, step.Succeeds source (Catalog.lastTable table hops) := by
  obtain ⟨d, rfl, hrun⟩ := h
  rw [run] at hrun
  cases hr : source.schema.resolve d.table chain with
  | error e => simp [hr] at hrun
  | ok hops =>
    simp only [hr, Outcome.failure?_close] at hrun
    exact ⟨hops, rfl, succeeds_of_mem hrun⟩

end Step

end Listing
