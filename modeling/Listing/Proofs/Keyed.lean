import Listing.Proofs.Answers
import Listing.Proofs.Correlation
import Listing.Proofs.Loading

namespace Listing

open Sql

namespace Sql

theorem Truth.any_eq_top {ts : List Truth} : any ts = ⊤ ↔ ⊤ ∈ ts := by
  induction ts with
  | nil => exact iff_of_false (by decide) List.not_mem_nil
  | cons t ts ih => rw [any_cons, max_eq_top, ih, List.mem_cons, eq_comm]

variable {α : Type} (db : Database α) (ρ : Rows α)

theorem Atom.truth_oneOf {column : Column} {values : List Value} :
    (Atom.oneOf column values).truth db ρ = ⊤ ↔
      ∃ value ∈ values, db.compare .equal (column.content ρ) value = ⊤ := by
  rw [truth, Truth.any_eq_top, List.mem_map]

/-- One more condition joins a disjunction as a whole, and a conjunction as one more member. -/
theorem Junction.truth_narrow (c : Condition) (condition? : Option Junction) :
    (narrow c condition?).truth db ρ =
      condition?.elim ⊤ (Junction.truth db ρ) ⊓ c.truth db ρ := by
  match condition? with
  | none => rw [narrow, truth_single, Option.elim_none, top_inf_eq]
  | some ⟨.and, members⟩ =>
    rw [narrow, truth, List.map_append, Truth.joined, Truth.all_append, List.map_singleton,
      Truth.all_cons, Truth.all_nil, inf_top_eq]
    rfl
  | some ⟨.or, members⟩ =>
    rw [narrow, truth, List.map_cons, List.map_singleton, Truth.joined, Truth.all_cons,
      Truth.all_cons, Truth.all_nil, inf_top_eq, truth_toCondition]
    rfl

end Sql

theorem Step.matching_runAll {source : Source} {scope : List Step} {table : String}
    (h : (runAll source scope { table }).failure? = none) {α : Type} (db : Database α)
    (ρ : Rows α) : (runAll source scope { table }).draft.rowsSelect.matching db ρ =
      (db.rows table).filter fun row ↦
        Truth.read (readsAll source.schema db table (Function.update ρ table row) scope) = ⊤ := by
  have htable : (runAll source scope { table }).draft.rowsSelect.table = table :=
    runAll_table scope { table }
  rw [Select.matching, htable]
  apply List.filter_congr
  intro row _
  rw [Bool.eq_iff_iff, Truth.isYes_iff, Draft.truth_rowsSelect,
    truth_runAll db _ source scope table h, decide_eq_true_iff]

namespace Load

variable {α : Type} (load : Load) (db : Database α) (ρ : Rows α)

theorem truth_keyed (keys : List Value) : (load.keyed keys).truth db ρ = ⊤ ↔
    (∃ key ∈ keys, db.compare .equal (ρ load.table load.column) key = ⊤) ∧
      load.select.truth db ρ = ⊤ := by
  have htruth : (load.keyed keys).truth db ρ =
      load.select.truth db ρ ⊓ (Atom.oneOf ⟨load.table, load.column⟩ keys).truth db ρ :=
    Junction.truth_narrow db ρ _ load.select.condition?
  rw [htruth, inf_eq_top_iff, Atom.truth_oneOf, and_comm]
  rfl

theorem matching_keyed (htable : load.select.table = load.table) (keys : List Value) :
    (load.keyed keys).matching db ρ = (load.select.matching db ρ).filter fun row ↦
      ∃ key ∈ keys, db.compare .equal (row load.column) key = ⊤ := by
  have hkeyed : (load.keyed keys).table = load.table := htable
  rw [Select.matching, Select.matching, hkeyed, htable, List.filter_filter]
  apply List.filter_congr
  intro row _
  rw [Bool.eq_iff_iff, Truth.isYes_iff, truth_keyed, Function.update_self, Bool.and_eq_true,
    Truth.isYes_iff, decide_eq_true_iff]

theorem answers_keyed (hrows : load.select.projection = .rows)
    (hlimit : load.select.limit? = none) (hoffset : load.select.offset? = none)
    (keys : List Value) (answer : Answer α) : (load.keyed keys).Answers db ρ answer ↔
      ∃ rows, rows.Perm ((load.keyed keys).matching db ρ) ∧ answer = .rows rows := by
  have hcut (l : List (Row α)) : (load.keyed keys).cut l = l :=
    Select.cut_of_unbounded (s := load.keyed keys) hlimit hoffset l
  have hprojection : (load.keyed keys).projection = .rows := hrows
  rw [Select.answers_rows hprojection]
  simp only [hcut]

theorem mem_put_self (load : Load) (loads : List Load) : load ∈ put load loads := by
  induction loads with
  | nil => exact List.mem_singleton_self load
  | cons other more ih =>
    rw [put]
    split
    · exact List.mem_cons_self
    · exact List.mem_cons_of_mem other ih

/-- The query of the load is the one for all rows that a scope leaves. By keys it answers with the
rows whose column holds one of the keys and of which the clauses of the scope are true, and with
no others, in the same order. -/
structure Restricts (source : Source) (scope : List Step) (load : Load) : Prop where
  succeeds : (Step.runAll source scope { table := load.table }).failure? = none
  select : load.select = (Step.runAll source scope { table := load.table }).draft.rowsSelect
  matching : ∀ {α : Type} (db : Database α) (ρ : Rows α) (keys : List Value),
    (load.keyed keys).matching db ρ = (db.rows load.table).filter fun row ↦
      (∃ key ∈ keys, db.compare .equal (row load.column) key = ⊤) ∧
        Truth.read (Step.readsAll source.schema db load.table
          (Function.update ρ load.table row) scope) = ⊤
  answers : ∀ {α : Type} (db : Database α) (ρ : Rows α) (keys : List Value) (answer : Answer α),
    (load.keyed keys).Answers db ρ answer ↔
      ∃ rows, rows.Perm ((load.keyed keys).matching db ρ) ∧ answer = .rows rows
  none : ∀ {α : Type} (db : Database α) (ρ : Rows α), (load.keyed []).matching db ρ = []
  narrows : ∀ {α : Type} (db : Database α) (ρ : Rows α) (keys : List Value),
    ((load.keyed keys).matching db ρ).Sublist (load.select.matching db ρ)
  orders : ∀ keys, (load.keyed keys).orders = load.select.orders

variable {load} {source : Source} {scope : List Step}

theorem restricts (hsucceeds : (Step.runAll source scope { table := load.table }).failure? = none)
    (hselect : load.select =
      (Step.runAll source scope { table := load.table }).draft.rowsSelect) :
    load.Restricts source scope := by
  have htable : load.select.table = load.table := by
    rw [hselect]
    exact Step.runAll_table scope { table := load.table }
  refine ⟨hsucceeds, hselect, ?matching, ?answers, ?none, ?narrows, fun _ ↦ rfl⟩
  case matching =>
    intro α db ρ keys
    rw [load.matching_keyed db ρ htable, hselect, Step.matching_runAll hsucceeds,
      List.filter_filter]
    apply List.filter_congr
    intro row _
    rw [Bool.decide_and]
  case answers =>
    intro α db ρ keys answer
    apply load.answers_keyed db ρ
    · rw [hselect]
      rfl
    · rw [hselect]
      rfl
    · rw [hselect]
      rfl
  case none =>
    intro α db ρ
    rw [load.matching_keyed db ρ htable, List.filter_eq_nil_iff]
    simp
  case narrows =>
    intro α db ρ keys
    rw [load.matching_keyed db ρ htable]
    exact List.filter_sublist

theorem restricts_bare (source : Source) (path : String) (hop : Relation) :
    (ofHop path hop { table := hop.target }).Restricts source [] := restricts rfl rfl

end Load

namespace Include

variable {source : Source}

theorem exists_restricts {i : Include Step} {table : String} {select : Select}
    (h : i.query? source table = some select) {path : String} {hop : Relation}
    (htarget : select.table = hop.target) :
    ∃ scope, (Load.ofHop path hop select).Restricts source scope := by
  rcases i with chain | ⟨chain, scope⟩
  · cases h
  · rw [query?] at h
    cases hr : source.schema.resolve table chain with
    | error f =>
      rw [hr] at h
      cases h
    | ok hops =>
      simp only [hr] at h
      by_cases hf : (Step.runAll source scope
          { table := Catalog.lastTable table hops }).failure? = none
      · rw [if_pos hf] at h
        obtain rfl := Option.some.inj h
        have hlast : Catalog.lastTable table hops = hop.target :=
          (Step.runAll_table scope { table := Catalog.lastTable table hops }).symm.trans htarget
        rw [hlast] at hf ⊢
        exact ⟨scope, Load.restricts hf rfl⟩
      · rw [if_neg hf] at h
        cases h

end Include

namespace Step

variable {source : Source}

theorem restricts_of_scoped {d : Draft} {chain : String} {scope : List Step}
    (h : (run source (.load [.scoped chain scope]) d).failure? = none) :
    ∃ hops path hop, source.schema.resolve d.table chain = .ok hops ∧
      (Draft.route chain hops).getLast? = some (path, hop) ∧
      ∃ select, .ofHop path hop select ∈ (run source (.load [.scoped chain scope]) d).draft.loads ∧
        (Load.ofHop path hop select).Restricts source scope := by
  obtain ⟨hinclude, -⟩ := Outcome.failure?_andThen.mp h
  have hdraft : (run source (.load [.scoped chain scope]) d).draft =
      (runInclude source (.scoped chain scope) d).draft := by
    rw [run, runIncludes, Outcome.draft_andThen _ hinclude]
    rfl
  rw [hdraft]
  simp only [runInclude] at hinclude ⊢
  cases hr : source.schema.resolve d.table chain with
  | error f =>
    rw [hr] at hinclude
    cases hinclude
  | ok hops =>
    simp only [hr, Outcome.failure?_close] at hinclude
    obtain ⟨path, hop, hlast, hhop⟩ := Draft.getLast?_route hr
    have htarget : Catalog.lastTable d.table hops = hop.target := by
      rw [Catalog.lastTable, hhop]
      rfl
    rw [htarget] at hinclude
    refine ⟨hops, path, hop, rfl, hlast,
      (runAll source scope { table := hop.target }).draft.rowsSelect, ?_,
      Load.restricts hinclude rfl⟩
    simp only [htarget, Outcome.draft_close _ _ hinclude, Draft.loadScope, hlast]
    exact Load.mem_put_self _ _

end Step

/-- Keys only narrow what a load finds, whatever scope has left its query. -/
theorem Draft.Reachable.keyed_restricts {source : Source} {d : Draft} (h : d.Reachable source) :
    (∀ load ∈ d.loads, ∃ scope, load.Restricts source scope) ∧
    ∀ chain scope, ((Step.load [.scoped chain scope]).run source d).failure? = none →
      ∃ hops path hop, source.schema.resolve d.table chain = .ok hops ∧
        (route chain hops).getLast? = some (path, hop) ∧
        ∃ select, .ofHop path hop select ∈
            ((Step.load [.scoped chain scope]).run source d).draft.loads ∧
          (Load.ofHop path hop select).Restricts source scope := by
  refine ⟨?_, fun chain scope ↦ Step.restricts_of_scoped⟩
  induction h with
  | fresh table => exact fun load hload ↦ absurd hload List.not_mem_nil
  | step step _ ih =>
    apply Step.forall_run (fun path hop ↦ ⟨[], Load.restricts_bare source path hop⟩) ih
    intro includes _ i _ select hselect path hop htarget
    exact Include.exists_restricts hselect htarget

def either : List Step :=
  [.restrict ⟨.compare "name" .equal "ann", .and⟩, .restrict ⟨.null "company_id", .or⟩,
    .order { field := "name" }]

theorem keyed_restricts_either : Draft.Reachable ⟨shelf, fun _ ↦ .ok 0⟩ { table := "posts" } ∧
    ∃ load : Load, (load.path, load.table, load.column) = ("author", "users", "id") ∧
      load.Restricts ⟨shelf, fun _ ↦ .ok 0⟩ either ∧
      (load.keyed [.int 7]).orders = [(⟨"users", "name"⟩, .ascending)] ∧
      (load.keyed [.int 7]).matching Database.flags (fun _ _ ↦ none) = [fun _ ↦ some true] := by
  have hfresh : Draft.Reachable ⟨shelf, fun _ ↦ .ok 0⟩ { table := "posts" } := .fresh "posts"
  refine ⟨hfresh, ?_⟩
  obtain ⟨hops, path, hop, hr, hlast, select, -, hrestricts⟩ :=
    hfresh.keyed_restricts.2 "author" either rfl
  have hauthor : [⟨"posts", "author", "users", "author_id", "id"⟩] = hops := Except.ok.inj hr
  subst hauthor
  obtain ⟨rfl, rfl⟩ : "author" = path ∧ ⟨"posts", "author", "users", "author_id", "id"⟩ = hop :=
    Prod.mk.inj (Option.some.inj hlast)
  refine ⟨_, rfl, hrestricts, ?_, ?_⟩
  · rw [hrestricts.orders, hrestricts.select]
    rfl
  · rw [hrestricts.matching]
    rfl

end Listing
