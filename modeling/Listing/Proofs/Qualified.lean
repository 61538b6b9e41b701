import Listing.Proofs.Loading
import Listing.Proofs.Orders
import Listing.Proofs.Standing

namespace Listing

open Sql

namespace Leaf

variable (catalog : Catalog)

def table? : String → List Frame → Option String
  | table, [] => some table
  | table, .group _ _ :: more => table? table more
  | table, .existing chain _ _ :: more =>
    match catalog.resolve table chain with
    | .ok hops => table? (Catalog.lastTable table hops) more
    | .error _ => none
  | _, .load _ _ :: _ => none

def tested? (table : String) (leaf : Leaf) : Option (String × Column) :=
  (table? catalog table leaf.trail).bind fun home ↦
    (leaf.compiled.toOption.bind (·.test.field?)).map fun field ↦ (home, .ofField home field)

end Leaf

namespace Step

variable {catalog : Catalog}

theorem tested?_load {table : String} (i : Include Step) :
    (includeLeaves i).filterMap (Leaf.tested? catalog table) = [] := by
  rcases i with chain | ⟨chain, scope⟩
  · rfl
  · rw [includeLeaves, List.filterMap_map]
    exact List.filterMap_eq_nil_iff.mpr fun leaf _ ↦ rfl

mutual

theorem tests_clauses (table : String) : ∀ (step : Step) (around? : Option String),
    ((clauses catalog table step).flatMap (Clause.standing around? table)).filterMap
      Standing.test? = step.leaves.filterMap (Leaf.tested? catalog table)
  | .restrict p, around? => by
    rw [clauses, leaves]
    cases ht : Draft.tested { table } catalog p.test with
    | error f =>
      have hfield : p.test.field? = none := by
        cases htest : p.test with
        | has chain => rfl
        | _ => rw [htest] at ht; cases ht
      simp [Leaf.tested?, Leaf.table?, Except.toOption, hfield]
    | ok j =>
      rcases Draft.tested_cases ht with ⟨hfield, chain, hops, -, rfl⟩ | ⟨field, a, hfield, ha, rfl⟩
      · have hnested : (((Draft.existence hops none).standing around? table).filterMap
            Standing.test?) = [] := by
          rw [Draft.standing_existence]
          exact Draft.tests_nested fun _ ↦ rfl
        simp [Clause.standing, hnested, Leaf.tested?, Leaf.table?, Except.toOption, hfield]
      · simp [Clause.standing, Junction.standing, Junction.single, Condition.standing,
          Standing.test?, ha, Leaf.tested?, Leaf.table?, Except.toOption, hfield, Draft.column]
  | .group c scope, around? => by
    have ih := tests_clausesAll table scope around?
    have hcondition := Draft.standing_condition? around? table
      { table, clauses := clausesAll catalog table scope }
    have hleaves : ((leavesAll scope).map (.within (.group c scope.length))).filterMap
        (Leaf.tested? catalog table) =
          (leavesAll scope).filterMap (Leaf.tested? catalog table) := by
      rw [List.filterMap_map]
      rfl
    rw [clauses, leaves, hleaves, ← ih, ← hcondition]
    cases Draft.condition? { table, clauses := clausesAll catalog table scope } with
    | none => rfl
    | some j => exact congrArg _ (List.flatMap_singleton ..)
  | .existing chain c scope, around? => by
    rw [clauses, leaves, List.filterMap_map]
    cases hr : catalog.resolve table chain with
    | error f =>
      refine (List.filterMap_eq_nil_iff.mpr fun leaf _ ↦ ?_).symm
      simp [Leaf.tested?, Leaf.within, Leaf.table?, hr]
    | ok hops =>
      have hleaves : (leavesAll scope).filterMap
          (Leaf.tested? catalog table ∘ .within (.existing chain c scope.length)) =
            (leavesAll scope).filterMap
              (Leaf.tested? catalog (Catalog.lastTable table hops)) := by
        refine List.filterMap_congr fun leaf _ ↦ ?_
        simp [Leaf.tested?, Leaf.within, Leaf.table?, hr]
      rw [hleaves]
      simp only [List.flatMap_singleton, Clause.standing]
      rw [Draft.standing_existence]
      refine Draft.tests_nested fun around? ↦ ?_
      rw [Draft.standing_map_toCondition, Draft.standing_condition?]
      exact tests_clausesAll (Catalog.lastTable table hops) scope around?
  | .load includes, _ => by
    have hloads : (includes.flatMap includeLeaves).filterMap (Leaf.tested? catalog table) = [] := by
      rw [List.filterMap_flatMap]
      exact List.flatMap_eq_nil_iff.mpr fun i _ ↦ tested?_load i
    rw [leaves, includesLeaves_eq, hloads]
    rfl
  | .order _, _ => rfl
  | .limit _, _ => rfl
  | .offset _, _ => rfl
  | .tableAt _, _ => rfl
  | .countRows, _ => rfl
  | .fail _, _ => rfl

theorem tests_clausesAll (table : String) : ∀ (steps : List Step) (around? : Option String),
    ((clausesAll catalog table steps).flatMap (Clause.standing around? table)).filterMap
      Standing.test? = (leavesAll steps).filterMap (Leaf.tested? catalog table)
  | [], _ => rfl
  | step :: more, around? => by
    rw [clausesAll, leavesAll, List.flatMap_append, List.filterMap_append, List.filterMap_append,
      tests_clauses table step around?, tests_clausesAll table more around?]

end

theorem tested_runAll {source : Source} {steps : List Step} {table : String}
    (h : (runAll source steps { table }).failure? = none) :
    (runAll source steps { table }).draft.rowsSelect.tested =
      (leavesAll steps).filterMap (Leaf.tested? source.schema table) := by
  have hclauses := runAll_clauses source steps { table } h
  rw [List.nil_append] at hclauses
  rw [Select.tested, Draft.standing_rowsSelect, runAll_table, hclauses]
  exact tests_clausesAll table steps none

end Step

/-- The table that a filter is about: the one at the end of its chain, or else the listing. -/
def Filter.home (catalog : Catalog) (table : String) (f : Filter) : String :=
  if f.IsRelated then Script.found (catalog.tableAt table) f.chain else table

theorem Filter.field?_predicate {separator : Char} {f : Filter} {p : Predicate}
    (h : f.predicate separator = .ok p) :
    p.test.field? = if f.operator = "has" then none else some f.field := by
  unfold predicate at h
  cases ho : Operator.ofCode f.operator with
  | error e => simp [ho, Except.map] at h
  | ok op =>
    have hcode := Operator.code_of_ofCode ho
    rw [ho] at h
    obtain rfl := Except.ok.inj h
    rw [← hcode]
    cases op <;> rfl

namespace Request

variable {separator : Char} {catalog : Catalog} {table : String} (r : Request)

theorem tested?_leaf {f : Filter} {p : Predicate}
    (hp : (f.placed (Script.found (catalog.tableAt table))).predicate separator = .ok p)
    (hchain : f.IsRelated → ∃ hops, catalog.resolve table f.chain = .ok hops ∧
      '.' ∉ (Catalog.lastTable table hops).toList) :
    (r.leaf separator (Script.found (catalog.tableAt table)) f).tested? catalog table =
      if f.operator = "has" then none
      else some (f.home catalog table, ⟨f.home catalog table, f.leaf⟩) := by
  have hfield := Filter.field?_predicate hp
  rw [Filter.operator_placed] at hfield
  rw [Leaf.tested?, leaf, hp, Except.toOption, Option.bind_some, hfield]
  by_cases hrelated : f.IsRelated
  · obtain ⟨hops, hr, hdot⟩ := hchain hrelated
    have hfound := Script.found_of_resolve hr
    have hcolumn := Column.ofField_qualify hdot (Text.not_mem_lastPart f.field)
      (Catalog.lastTable table hops)
    rw [Filter.home, if_neg hrelated.2, if_neg hrelated.2, if_pos hrelated, hfound, trail,
      if_pos hrelated, Filter.placed, if_pos hrelated, hfound]
    simp only [Leaf.table?, hr, Option.bind_some, Option.map_some]
    exact congrArg (fun column ↦ some (_, column)) hcolumn
  · rw [Filter.home, if_neg hrelated, trail, if_neg hrelated, Filter.placed, if_neg hrelated,
      Leaf.table?, Option.bind_some]
    by_cases hop : f.operator = "has"
    · rw [if_pos hop, if_pos hop, Option.map_none]
    · have hdot : '.' ∉ f.field.toList := fun hdot ↦ hrelated ⟨hdot, hop⟩
      have hleaf : f.leaf = f.field := Text.lastPart_of_not_mem hdot
      rw [if_neg hop, if_neg hop, Option.map_some, Filter.onListing, if_neg hdot, hleaf,
        Column.ofField_of_not_mem table hdot]

theorem resolve_of_opened {source : Source} {tables : String → String} {c : Connective}
    {chain : String}
    (h : ∀ step ∈ (Script.ofRequest separator (.ok ∘ tables) r).steps, step.Succeeds source table)
    (hchain : chain ∈ r.opened c) : ∃ hops, source.schema.resolve table chain = .ok hops := by
  have hgroup : ∀ step ∈ Script.relatedSteps separator (.ok ∘ tables) c (r.groups c),
      step.Succeeds source table := by
    simp only [Script.ofRequest, List.forall_mem_append, and_assoc] at h
    obtain ⟨-, -, hand, hor, -⟩ := h
    cases c with
    | and => exact hand
    | or => exact hor
  rw [Script.relatedSteps_groups, if_neg (List.ne_nil_of_mem hchain)] at hgroup
  have hmembers := (hgroup _ (List.mem_singleton_self _)).of_group
  have hmember : (r.member separator tables c chain).Succeeds source table :=
    hmembers _ (List.mem_map_of_mem hchain)
  obtain ⟨hops, hr, -⟩ := hmember.of_existing
  exact ⟨hops, hr⟩

theorem query?_inclusion {source : Source} {tables : String → String} {chain : String}
    {select : Select} (h : (r.inclusion tables chain).query? source table = some select) :
    ∃ hops, source.schema.resolve table chain = .ok hops ∧
      select = {
        table := Catalog.lastTable table hops
        orders := (r.ordersAlong chain).map fun o ↦
          (.ofField (Catalog.lastTable table hops) (Path.qualify (tables chain) o.leaf),
            o.direction) } := by
  unfold inclusion at h
  split at h
  · cases h
  · have hscope : ((r.ordersAlong chain).map fun o ↦
        Step.order { o with field := Path.qualify (tables chain) o.leaf }) =
          ((r.ordersAlong chain).map fun o ↦
            { o with field := Path.qualify (tables chain) o.leaf }).map .order :=
      List.map_map.symm
    rw [hscope, Include.query?] at h
    cases hr : source.schema.resolve table chain with
    | error f => simp [hr] at h
    | ok hops =>
      simp only [hr, Step.runAll_map_order, if_true] at h
      refine ⟨hops, rfl, ?_⟩
      rw [← Option.some.inj h]
      simp only [Draft.rowsSelect, List.nil_append, List.map_map]
      rfl

/-- The filters that a script tests columns for. -/
def testing : List Filter := r.filters.filter fun f ↦ ¬ r.Skips f ∧ f.operator ≠ "has"

theorem tested_leaves (hpredicate : ∀ f ∈ r.filters, ¬ r.Skips f → ∃ p,
      (f.placed (Script.found (catalog.tableAt table))).predicate separator = .ok p)
    (hchain : ∀ f ∈ r.filters, ¬ r.Skips f → f.IsRelated → ∃ hops,
      catalog.resolve table f.chain = .ok hops ∧ '.' ∉ (Catalog.lastTable table hops).toList) :
    ((Step.leavesAll (Script.ofRequest separator
        (.ok ∘ Script.found (catalog.tableAt table)) r).steps).filterMap
          (Leaf.tested? catalog table)).Perm
      (r.testing.map fun f ↦ (f.home catalog table, ⟨f.home catalog table, f.leaf⟩)) := by
  have hleaf : r.routed.filterMap (Leaf.tested? catalog table ∘
      r.leaf separator (Script.found (catalog.tableAt table))) =
        r.routed.filterMap fun f ↦ if f.operator ≠ "has" then
          some (f.home catalog table, ⟨f.home catalog table, f.leaf⟩) else none := by
    refine List.filterMap_congr fun f hf ↦ ?_
    obtain ⟨hmem, hskip⟩ := r.mem_routed.mp hf
    obtain ⟨p, hp⟩ := hpredicate f hmem hskip
    rw [Function.comp_apply, r.tested?_leaf hp (hchain f hmem hskip), ite_not]
  have htesting : (r.filters.filter (¬ r.Skips ·)).filter (·.operator ≠ "has") = r.testing := by
    rw [List.filter_filter, testing]
    refine List.filter_congr fun f _ ↦ ?_
    rw [Bool.decide_and, Bool.and_comm]
  rw [Script.leavesAll_ofRequest, List.filterMap_map, hleaf, filterMap_ite, ← htesting]
  exact (r.routed_perm.filter _).map _

end Request

theorem Script.load_mem_ofRequest {separator : Char} {tables : String → String} {r : Request}
    {includes : List (Include Step)}
    (h : .load includes ∈ (ofRequest separator (.ok ∘ tables) r).steps) :
    includes = r.loadedChains.map (r.inclusion tables) := by
  have hrelated (c : Connective) :
      .load includes ∉ relatedSteps separator (.ok ∘ tables) c (r.groups c) := by
    rw [relatedSteps_groups]
    split
    · exact List.not_mem_nil
    · exact fun hmem ↦ Step.noConfusion (List.mem_singleton.mp hmem)
  simp only [ofRequest, List.mem_append, or_assoc] at h
  rcases h with hroot | horder | hand | hor | hinclude | hpage
  · obtain ⟨f, -, hf⟩ := List.mem_map.mp hroot
    unfold filterStep at hf
    cases hp : f.predicate separator <;> simp [hp] at hf
  · obtain ⟨o, -, ho⟩ := List.mem_map.mp horder
    cases ho
  · exact absurd hand (hrelated .and)
  · exact absurd hor (hrelated .or)
  · rw [includeSteps_eq] at hinclude
    split at hinclude
    · exact absurd hinclude List.not_mem_nil
    · injection List.mem_singleton.mp hinclude
  · cases hw : r.page? <;> simp [hw, pageSteps] at hpage

def Page.selects (p : Page) : List Select := p.select :: p.count :: p.loads.map (·.select)

/-- What loads a script leaves: ordered by columns of their own, if at all, and not narrowed. -/
def Load.IsOrdered (catalog : Catalog) (table : String) (r : Request) (load : Load) : Prop :=
  load.select.table = load.table ∧ load.select.condition? = none ∧
    (load.select.orders = [] ∨ ∃ chain, catalog.tableAt table chain = .ok load.table ∧
      load.select.orders = (r.ordersAlong chain).map fun o ↦ (⟨load.table, o.leaf⟩, o.direction))

/-- What the columns in the queries of a page are about. Those of filters and orders are last
segments of the request, each with the table of the query that it stands in, and that table is the
one at the end of the chain in front of the segment. Joins lead from a query to the one right
around it. -/
structure Page.Qualified (catalog : Catalog) (table : String) (r : Request) (page : Page) :
    Prop where
  own : ∀ select ∈ page.selects, ∀ s ∈ select.standing, s.IsOwn
  ordered : ∀ select ∈ page.selects, ∀ order ∈ select.orders, order.1.table = select.table
  home : ∀ f ∈ r.testing, f.IsRelated →
    catalog.tableAt table f.chain = .ok (f.home catalog table)
  filters : ∀ select ∈ [page.select, page.count], select.table = table ∧ select.tested.Perm
    (r.testing.map fun f ↦ (f.home catalog table, ⟨f.home catalog table, f.leaf⟩))
  orders : page.select.orders = (r.orders.filter ('.' ∉ ·.field.toList)).map fun o ↦
    (⟨table, o.field⟩, o.direction)
  unordered : page.count.orders = []
  loads : ∀ load ∈ page.loads, load.IsOrdered catalog table r

theorem Sql.Select.own_of_tested {select : Select}
    (hcorrelated : ∀ s ∈ select.standing, s.IsCorrelated)
    (htested : ∀ tested ∈ select.tested, tested.2.table = tested.1) :
    ∀ s ∈ select.standing, s.IsOwn := by
  intro s hs
  refine ⟨fun column hcolumn ↦ ?_, hcorrelated s hs⟩
  refine htested (s.table, column) (List.mem_filterMap.mpr ⟨s, hs, ?_⟩)
  rw [Standing.test?, Option.mem_def.mp hcolumn, Option.map_some]

section Page

variable {separator : Char} {schema : Schema} {count : Select → Except Failure UInt64}
  {table : String} {r : Request}

theorem Draft.qualified_page {catalog : Catalog} {d : Draft} (hcorrelated : d.Correlated)
    (htable : d.table = table)
    (horders : d.orders = r.orders.filter ('.' ∉ ·.field.toList))
    (hhome : ∀ f ∈ r.testing, f.IsRelated →
      catalog.tableAt table f.chain = .ok (f.home catalog table))
    (htested : d.rowsSelect.tested.Perm
      (r.testing.map fun f ↦ (f.home catalog table, ⟨f.home catalog table, f.leaf⟩)))
    (hloads : ∀ load ∈ d.loads, load.IsOrdered catalog table r) (limit number : UInt64) :
    (d.page limit number).Qualified catalog table r := by
  obtain ⟨limit?, offset?, hselect⟩ := d.select_page limit number
  have hown : ∀ s ∈ d.rowsSelect.standing, s.IsOwn := by
    refine Select.own_of_tested (hcorrelated.condition? none) fun tested htest ↦ ?_
    obtain ⟨f, -, rfl⟩ := List.mem_map.mp (htested.mem_iff.mp htest)
    rfl
  have hcolumns : d.rowsSelect.orders = (r.orders.filter ('.' ∉ ·.field.toList)).map fun o ↦
      (⟨table, o.field⟩, o.direction) := by
    rw [rowsSelect, horders]
    refine List.map_congr_left fun o ho ↦ ?_
    have hdot : '.' ∉ o.field.toList := of_decide_eq_true (List.mem_filter.mp ho).2
    rw [column, htable, Column.ofField_of_not_mem table hdot]
  constructor
  case own =>
    intro select hmem s hs
    rcases List.mem_cons.mp hmem with rfl | hmem
    · rw [hselect] at hs
      exact hown s hs
    rcases List.mem_cons.mp hmem with rfl | hmem
    · exact hown s hs
    obtain ⟨load, hload, rfl⟩ := List.mem_map.mp hmem
    obtain ⟨-, hcondition, -⟩ := hloads load hload
    rw [Select.standing, hcondition] at hs
    exact absurd hs List.not_mem_nil
  case ordered =>
    intro select hmem order horder
    rcases List.mem_cons.mp hmem with rfl | hmem
    · rw [hselect] at horder ⊢
      change order ∈ d.rowsSelect.orders at horder
      rw [hcolumns] at horder
      obtain ⟨o, -, rfl⟩ := List.mem_map.mp horder
      exact htable.symm
    rcases List.mem_cons.mp hmem with rfl | hmem
    · exact absurd horder List.not_mem_nil
    obtain ⟨load, hload, rfl⟩ := List.mem_map.mp hmem
    obtain ⟨htarget, -, hnone | ⟨chain, -, hsome⟩⟩ := hloads load hload
    · rw [hnone] at horder
      exact absurd horder List.not_mem_nil
    · rw [hsome] at horder
      obtain ⟨o, -, rfl⟩ := List.mem_map.mp horder
      exact htarget.symm
  case home => exact hhome
  case filters =>
    intro select hmem
    rcases List.mem_pair.mp hmem with rfl | rfl
    · rw [hselect]
      exact ⟨htable, htested⟩
    · exact ⟨htable, htested⟩
  case orders =>
    rw [hselect]
    exact hcolumns
  case unordered => rfl
  case loads => exact hloads

theorem Script.ordered_loads (separator : Char) (count : Select → Except Failure UInt64)
    (table : String) (r : Request) (htables : ∀ owner name relation,
      schema.relation? owner name = some relation → '.' ∉ relation.target.toList) :
    ∀ load ∈ (Step.runAll ⟨schema, count⟩ (ofRequest separator
        (.ok ∘ found (schema.catalog.tableAt table)) r).steps { table }).draft.loads,
      load.IsOrdered schema table r := by
  apply Step.forall_runAll
  · exact fun path hop ↦ ⟨rfl, rfl, .inl rfl⟩
  · exact fun load hload ↦ absurd hload List.not_mem_nil
  · intro includes hload i hi select hselect path hop htarget
    rw [load_mem_ofRequest hload] at hi
    obtain ⟨chain, -, rfl⟩ := List.mem_map.mp hi
    obtain ⟨hops, hr, rfl⟩ := r.query?_inclusion hselect
    change schema.catalog.resolve table chain = .ok hops at hr
    change Catalog.lastTable table hops = hop.target at htarget
    have hdot := Catalog.lastTable_of_targets (P := ('.' ∉ ·.toList)) htables hr
    have hat : schema.catalog.tableAt table chain = .ok hop.target := by
      rw [Catalog.tableAt, hr, ← htarget]
      rfl
    refine ⟨htarget, rfl, .inr ⟨chain, hat, List.map_congr_left fun o _ ↦ ?_⟩⟩
    have hcolumn := Column.ofField_qualify hdot (Text.not_mem_lastPart o.field)
      (Catalog.lastTable table hops)
    change (Column.ofField (Catalog.lastTable table hops) (Path.qualify
      (found (schema.catalog.tableAt table) chain) o.leaf), o.direction) =
        (⟨hop.target, o.leaf⟩, o.direction)
    rw [found_of_resolve hr, Order.leaf, hcolumn, htarget]

/-- Where the names of tables have no dots, no request makes the plan of its page take a column of
a filter or an order from another table than that of its own query. -/
theorem plan_qualified (htables : ∀ owner name relation,
      schema.relation? owner name = some relation → '.' ∉ relation.target.toList) {page : Page}
    (h : (plan separator ⟨schema, count⟩ table r).result = .ok page) :
    page.Qualified schema table r := by
  have hfound := Script.ofRequest_found (Step.firstFailure?_of_runAll _ _ _ (plan_ok h rfl).1)
  obtain ⟨hrun, limit, number, rfl⟩ := plan_ok h hfound
  have hsteps := Step.succeeds_of_mem hrun
  have hchain : ∀ f ∈ r.filters, ¬ r.Skips f → f.IsRelated → ∃ hops,
      schema.catalog.resolve table f.chain = .ok hops ∧
        '.' ∉ (Catalog.lastTable table hops).toList := by
    intro f hf hskip hrelated
    obtain ⟨hops, hr⟩ := r.resolve_of_opened hsteps ((r.chain_mem_opened hf hrelated).mpr hskip)
    exact ⟨hops, hr, Catalog.lastTable_of_targets (P := ('.' ∉ ·.toList)) htables hr⟩
  have hpredicate : ∀ f ∈ r.filters, ¬ r.Skips f → ∃ p,
      (f.placed (Script.found (schema.catalog.tableAt table))).predicate separator = .ok p := by
    intro f hf hskip
    have hsupported := (Script.firstFailure?_eq_none separator _ r).mp
      (Step.firstFailure?_of_runAll _ _ _ hrun) f hf hskip
    exact Filter.exists_predicate_placed separator _ hsupported
  apply Draft.qualified_page
  · exact (Step.built_runAll _ (.fresh table)).correlated rfl
  · exact Step.runAll_table _ { table }
  · rw [Step.runAll_orders hrun, Script.order?_ofRequest, List.nil_append, r.rootOrders_eq]
  · intro f hf hrelated
    obtain ⟨hmem, htest⟩ := List.mem_filter.mp hf
    obtain ⟨hops, hr, -⟩ := hchain f hmem (of_decide_eq_true htest).1 hrelated
    rw [Filter.home, if_pos hrelated, Script.found_of_resolve hr, Catalog.tableAt, hr]
    rfl
  · rw [Step.tested_runAll hrun]
    exact r.tested_leaves hpredicate hchain
  · exact Script.ordered_loads separator count table r htables

end Page

def columns : Request where
  filters := [{ field := "title", operator := "ct", value := "lean" },
    { field := "author", operator := "has" },
    { field := "author.company.name", operator := "eq", value := "x" },
    { field := "blog_tags.label", operator := "sw", value := "p", connective := .or }]
  orders := [{ field := "author.name" }, { field := "title", direction := .descending }]
  includes := ["blog_tags"]

theorem plan_qualified_columns :
    ∃ page, (plan '|' ⟨shelf, fun _ ↦ .ok 2⟩ "posts" columns).result = .ok page ∧
      page.Qualified shelf "posts" columns ∧
      page.select.tested.Perm [("posts", ⟨"posts", "title"⟩), ("companies", ⟨"companies", "name"⟩),
        ("tags", ⟨"tags", "label"⟩)] ∧
      page.select.orders = [(⟨"posts", "title"⟩, .descending)] ∧
      page.loads.map (·.select.orders) = [[], [(⟨"users", "name"⟩, .ascending)]] := by
  have htargets : ∀ relation ∈ shelf.relations, '.' ∉ relation.target.toList := by decide +kernel
  have htables : ∀ owner name relation, shelf.relation? owner name = some relation →
      '.' ∉ relation.target.toList :=
    fun owner name relation h ↦ htargets relation (Schema.mem_of_relation? h)
  obtain ⟨page, hpage⟩ : ∃ page,
      (plan '|' ⟨shelf, fun _ ↦ .ok 2⟩ "posts" columns).result = .ok page :=
    ⟨_, plan_ok_iff.mpr rfl⟩
  have hqualified := plan_qualified htables hpage
  have htested := (hqualified.filters page.select List.mem_cons_self).2
  have hcolumns : (columns.testing.map fun f ↦
      (f.home shelf "posts", (⟨f.home shelf "posts", f.leaf⟩ : Column))) =
        [("posts", ⟨"posts", "title"⟩), ("companies", ⟨"companies", "name"⟩),
          ("tags", ⟨"tags", "label"⟩)] := by
    decide +kernel
  rw [hcolumns] at htested
  refine ⟨page, hpage, hqualified, htested, hqualified.orders, ?_⟩
  obtain rfl := Except.ok.inj (plan_ok_iff.mp hpage)
  rfl

end Listing
