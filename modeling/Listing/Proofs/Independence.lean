import Listing.Proofs.Loads
import Listing.Proofs.Orders
import Listing.Proofs.Replay

namespace Listing

namespace Draft

variable {d e : Draft}

theorem loads_loadStation (h : d.loads = e.loads) (station : String × Relation) :
    (d.loadStation station).loads = (e.loadStation station).loads := by
  have hload : d.hasLoad station.1 = e.hasLoad station.1 := by rw [hasLoad, hasLoad, h]
  unfold loadStation
  rw [hload]
  split
  · exact h
  · exact congrArg (· ++ [_]) h

theorem loads_loadRoute (h : d.loads = e.loads) (route : List (String × Relation)) :
    (d.loadRoute route).loads = (e.loadRoute route).loads := by
  induction route generalizing d e with
  | nil => exact h
  | cons station more ih =>
    rw [loadRoute_cons, loadRoute_cons]
    exact ih (loads_loadStation h station)

theorem loads_loadScope (h : d.loads = e.loads) (route : List (String × Relation))
    (inner : Draft) : (d.loadScope route inner).loads = (e.loadScope route inner).loads := by
  unfold loadScope
  split
  · exact congrArg (Load.put _) h
  · exact h

end Draft

namespace Step

variable {source : Source} {d e : Draft}

theorem loads_runInclude (htable : d.table = e.table) (h : d.loads = e.loads)
    (i : Include Step) :
    (runInclude source i d).draft.loads = (runInclude source i e).draft.loads := by
  rcases i with chain | ⟨chain, scope⟩
  · simp only [runInclude, htable]
    cases source.schema.resolve e.table chain with
    | error f => exact h
    | ok hops => exact Draft.loads_loadRoute h _
  · simp only [runInclude, htable]
    cases source.schema.resolve e.table chain with
    | error f => exact h
    | ok hops =>
      have hroute := Draft.loads_loadRoute h (Draft.route chain hops)
      simp only [Outcome.close]
      split
      · exact hroute
      · exact Draft.loads_loadScope hroute _ _

theorem loads_runIncludes (htable : d.table = e.table) (h : d.loads = e.loads)
    (includes : List (Include Step)) :
    (runIncludes source includes d).draft.loads = (runIncludes source includes e).draft.loads := by
  induction includes generalizing d e with
  | nil => exact h
  | cons i more ih =>
    have hfirst : (runInclude source i d).draft.loads = (runInclude source i e).draft.loads :=
      loads_runInclude htable h i
    have hnext : (runInclude source i d).draft.table = (runInclude source i e).draft.table := by
      rw [runInclude_table, runInclude_table, htable]
    have hfailure : (runInclude source i d).failure? = (runInclude source i e).failure? := by
      rw [failure?_runInclude_fresh, htable, ← failure?_runInclude_fresh]
    simp only [runIncludes, Outcome.andThen, hfailure]
    split
    · exact hfirst
    · exact ih hnext hfirst

theorem loads_loadAll (htable : d.table = e.table) (h : d.loads = e.loads)
    (calls : List (List (Include Step))) :
    (d.loadAll source calls).loads = (e.loadAll source calls).loads := by
  induction calls generalizing d e with
  | nil => exact h
  | cons includes more ih =>
    refine ih ?_ (loads_runIncludes htable h includes)
    rw [run_table, run_table, htable]

def load? : Step → Option (List (Include Step))
  | .load includes => some includes
  | _ => none

theorem runAll_loads {steps : List Step} (h : (runAll source steps d).failure? = none) :
    (runAll source steps d).draft.loads = (d.loadAll source (steps.filterMap load?)).loads := by
  induction steps generalizing d with
  | nil => rfl
  | cons step more ih =>
    obtain ⟨hstep, hmore⟩ := Outcome.failure?_andThen.mp h
    rw [runAll, Outcome.draft_andThen _ hstep, ih hmore]
    cases hload : step.load? with
    | none =>
      have hother : ∀ includes, step ≠ .load includes := by
        rintro includes rfl
        cases hload
      rw [List.filterMap_cons_none hload]
      exact loads_loadAll (run_table source step d) ((run_frame source step d).2 hother) _
    | some includes =>
      obtain rfl : step = .load includes := by
        cases step <;> simp_all [load?]
      rw [List.filterMap_cons_some hload]
      rfl

end Step

namespace Draft

variable {d e : Draft} (htable : d.table = e.table) (limit number limit' number' : UInt64)
include htable

theorem restriction_page (h : d.clauses = e.clauses) :
    (d.page limit number).count = (e.page limit' number').count ∧
      (d.page limit number).select.condition? = (e.page limit' number').select.condition? := by
  have hcondition := condition?_congr h
  obtain ⟨_, _, hselect⟩ := d.select_page limit number
  obtain ⟨_, _, hselect'⟩ := e.select_page limit' number'
  constructor
  · simp only [page, countSelect, htable, hcondition]
  · rw [hselect, hselect']
    exact hcondition

theorem loading_page (h : d.orders = e.orders) (hloads : d.loads = e.loads) :
    (d.page limit number).select.orders = (e.page limit' number').select.orders ∧
      (d.page limit number).loads = (e.page limit' number').loads := by
  obtain ⟨_, _, hselect⟩ := d.select_page limit number
  obtain ⟨_, _, hselect'⟩ := e.select_page limit' number'
  constructor
  · rw [hselect, hselect']
    simp only [rowsSelect, column, htable, h]
  · exact hloads

end Draft

namespace Script

variable (separator : Char) (tableAt : String → Except Failure String) (r : Request)

/-- The steps that the filters of a request make. -/
def restrictions : List Step :=
  r.rootFilters.map (filterStep separator) ++ relatedSteps separator tableAt .and r.conjoined ++
    relatedSteps separator tableAt .or r.disjoined

theorem clausesAll_ofRequest (catalog : Catalog) (table : String) :
    Step.clausesAll catalog table (ofRequest separator tableAt r).steps =
      Step.clausesAll catalog table (restrictions separator tableAt r) := by
  have hnil {steps : List Step} (h : ∀ step ∈ steps, step.clauses catalog table = []) :
      Step.clausesAll catalog table steps = [] := by
    induction steps with
    | nil => rfl
    | cons step more ih =>
      obtain ⟨hstep, hmore⟩ := List.forall_mem_cons.mp h
      rw [Step.clausesAll, hstep, ih hmore, List.append_nil]
  have horders : Step.clausesAll catalog table (r.rootOrders.map Step.order) = [] :=
    hnil (List.forall_mem_map.mpr fun _ _ ↦ rfl)
  have hincludes : Step.clausesAll catalog table (includeSteps tableAt r) = [] := by
    unfold includeSteps
    split
    · rfl
    · split <;> rfl
  have hpage : Step.clausesAll catalog table (pageSteps r.page?) = [] := by
    cases r.page? <;> rfl
  simp only [ofRequest, restrictions, Step.clausesAll_append, horders, hincludes, hpage,
    List.append_nil]

theorem load?_ofRequest : (ofRequest separator tableAt r).steps.filterMap Step.load? =
    (includeSteps tableAt r).filterMap Step.load? := by
  have hroots : (r.rootFilters.map (filterStep separator)).filterMap Step.load? = [] := by
    refine List.filterMap_eq_nil_iff.mpr (List.forall_mem_map.mpr fun f _ ↦ ?_)
    unfold filterStep
    cases f.predicate separator <;> rfl
  have horders : (r.rootOrders.map Step.order).filterMap Step.load? = [] :=
    List.filterMap_eq_nil_iff.mpr (List.forall_mem_map.mpr fun _ _ ↦ rfl)
  have hrelated (c : Connective) (filters : List (String × List Filter)) :
      (relatedSteps separator tableAt c filters).filterMap Step.load? = [] := by
    unfold relatedSteps
    split
    · rfl
    · split <;> rfl
  have hpage : (pageSteps r.page?).filterMap Step.load? = [] := by
    cases r.page? <;> rfl
  simp only [ofRequest, List.filterMap_append, hroots, horders, hrelated, hpage, List.nil_append,
    List.append_nil]

variable {r} {r' : Request}

theorem restrictions_congr (h : r.filters = r'.filters) :
    restrictions separator tableAt r = restrictions separator tableAt r' := by
  have hroots : r.rootFilters = r'.rootFilters := by
    rw [Request.rootFilters, Request.rootFilters, h]
  have hrelated (c : Connective) : r.relatedFilters c = r'.relatedFilters c := by
    rw [Request.relatedFilters, Request.relatedFilters, h]
  have hand : r.conjoined = r'.conjoined := hrelated .and
  have hor : r.disjoined = r'.disjoined := by
    rw [Request.disjoined, Request.disjoined, hrelated, hand]
  rw [restrictions, restrictions, hroots, hand, hor]

theorem includeSteps_congr (horders : r.orders = r'.orders) (hincludes : r.includes = r'.includes) :
    includeSteps tableAt r = includeSteps tableAt r' := by
  have hrelated : r.relatedOrders = r'.relatedOrders := by
    rw [Request.relatedOrders, Request.relatedOrders, horders]
  have hloaded : r.loadedChains = r'.loadedChains := by
    rw [Request.loadedChains, Request.loadedChains, Request.includedChains,
      Request.includedChains, hincludes, hrelated]
  rw [includeSteps, includeSteps, hrelated, hloaded]

end Script

section Outcome

variable {separator : Char} {source : Source} {table : String} {r : Request}

theorem table_outcome : (outcome separator source table r).draft.table = table :=
  Step.runAll_table _ { table }

theorem clauses_outcome (h : (outcome separator source table r).failure? = none) :
    (outcome separator source table r).draft.clauses = Step.clausesAll source.schema table
      (Script.restrictions separator (source.schema.tableAt table) r) := by
  rw [← Script.clausesAll_ofRequest]
  exact Step.runAll_clauses source _ { table } h

theorem orders_outcome (h : (outcome separator source table r).failure? = none) :
    (outcome separator source table r).draft.orders = r.rootOrders := by
  have hscript := script_of_outcome h
  unfold outcome at h ⊢
  rw [hscript] at h ⊢
  exact (Step.runAll_orders h).trans (Script.order?_ofRequest separator _ r)

theorem loads_outcome (h : (outcome separator source table r).failure? = none) :
    (outcome separator source table r).draft.loads = (Draft.loadAll source { table }
      ((Script.includeSteps (source.schema.tableAt table) r).filterMap Step.load?)).loads := by
  rw [← Script.load?_ofRequest separator]
  exact Step.runAll_loads h

end Outcome

/-- Whatever else requests ask for, those with the same filters restrict their rows in the same
way, and those with the same orders and includes order and load the same. -/
theorem plan_independent {separator : Char} {schema : Catalog} {table : String} {r r' : Request}
    {count count' : Sql.Select → Except Failure UInt64} {page page' : Page}
    (h : (plan separator ⟨schema, count⟩ table r).result = .ok page)
    (h' : (plan separator ⟨schema, count'⟩ table r').result = .ok page') :
    (r.filters = r'.filters →
      page.count = page'.count ∧ page.select.condition? = page'.select.condition?) ∧
    (r.orders = r'.orders → r.includes = r'.includes →
      page.select.orders = page'.select.orders ∧ page.loads = page'.loads) := by
  obtain ⟨hrun, limit, number, rfl⟩ := plan_ok h rfl
  obtain ⟨hrun', limit', number', rfl⟩ := plan_ok h' rfl
  have hcounter := outcome_counter separator ⟨schema, count'⟩ table r' count
  have hboth : (outcome separator ⟨schema, count⟩ table r').failure? = none := by
    rw [hcounter]
    exact hrun'
  have hdraft : (outcome separator ⟨schema, count'⟩ table r').draft =
      (outcome separator ⟨schema, count⟩ table r').draft := by rw [hcounter]
  have htable : (outcome separator ⟨schema, count⟩ table r).draft.table =
      (outcome separator ⟨schema, count'⟩ table r').draft.table := by
    rw [table_outcome, table_outcome]
  constructor
  · intro hfilters
    refine Draft.restriction_page htable _ _ _ _ ?_
    rw [clauses_outcome hrun, clauses_outcome hrun', Script.restrictions_congr _ _ hfilters]
  · intro horders hincludes
    refine Draft.loading_page htable _ _ _ _ ?_ ?_
    · rw [orders_outcome hrun, orders_outcome hrun', Request.rootOrders, Request.rootOrders,
        horders]
    · rw [hdraft, loads_outcome hrun, loads_outcome hboth,
        Script.includeSteps_congr _ horders hincludes]

def browsing : Request where
  filters := reading.filters
  orders := [{ field := "blog_tags.label" }]
  includes := ["author.company"]
  window? := some ⟨3, 10⟩

def sifting : Request where
  filters := [{ field := "author.age", operator := "gt", value := "1" },
    { field := "author.company.name", operator := "null", connective := .or }]
  orders := reading.orders
  includes := reading.includes
  window? := some ⟨1, 5⟩

theorem plan_independent_reading : ∃ page page' page'',
    (plan '|' ⟨shelf, fun _ ↦ .ok 2⟩ "posts" reading).result = .ok page ∧
      (plan '|' ⟨shelf, fun _ ↦ .ok 7⟩ "posts" browsing).result = .ok page' ∧
      (plan '|' ⟨shelf, fun _ ↦ .ok 7⟩ "posts" sifting).result = .ok page'' ∧
      (page.count = page'.count ∧ page.select.condition? = page'.select.condition?) ∧
      page.select.orders = page''.select.orders ∧ page.loads = page''.loads := by
  obtain ⟨page, hpage⟩ : ∃ page,
      (plan '|' ⟨shelf, fun _ ↦ .ok 2⟩ "posts" reading).result = .ok page :=
    ⟨_, plan_ok_iff.mpr rfl⟩
  obtain ⟨page', hpage'⟩ : ∃ page,
      (plan '|' ⟨shelf, fun _ ↦ .ok 7⟩ "posts" browsing).result = .ok page :=
    ⟨_, plan_ok_iff.mpr rfl⟩
  obtain ⟨page'', hpage''⟩ : ∃ page,
      (plan '|' ⟨shelf, fun _ ↦ .ok 7⟩ "posts" sifting).result = .ok page :=
    ⟨_, plan_ok_iff.mpr rfl⟩
  obtain ⟨hrestriction, -⟩ := plan_independent hpage hpage'
  obtain ⟨-, hloading⟩ := plan_independent hpage hpage''
  exact ⟨page, page', page'', hpage, hpage', hpage'', hrestriction rfl, hloading rfl rfl⟩

end Listing
