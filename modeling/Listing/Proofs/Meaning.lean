import Listing.Proofs.Correlation
import Listing.Proofs.Readings
import Listing.Proofs.Runs

namespace Listing

open Sql

section Request

variable {α : Type} (separator : Char) (catalog : Catalog) (db : Database α) (table : String)
variable (ρ : Rows α)

/-- What a filter of `table` is of a row, as its operator reads. It holds of none if it cannot be
understood. -/
def Filter.truth (f : Filter) : Truth :=
  ((f.reading? separator).bind (·.truth? catalog db ρ table)).getD ⊥

/-- What a filter of the listing is of a row. A path asks for rows along the chain it names. -/
def Filter.listingTruth (f : Filter) : Truth :=
  if '.' ∈ f.field.toList then
    match catalog.resolve table f.chain with
    | .ok hops => db.reaches ρ hops fun _ ↦ ⊤
    | .error _ => ⊥
  else f.truth separator catalog db table ρ

namespace Request

variable (r : Request)

def conjoinedChains : Finset String := ((r.relatedBy .and).map Filter.chain).toFinset

/-- The chains that have disjoined filters alone. -/
def disjoinedChains : Finset String :=
  ((r.relatedBy .or).map Filter.chain).toFinset \ r.conjoinedChains

/-- Rows lead along the chain to one that all filters of a connective hold of. -/
def chainTruth (c : Connective) (chain : String) : Truth :=
  match catalog.resolve table chain with
  | .ok hops =>
    let last := Catalog.lastTable table hops
    db.reaches ρ hops fun ρ ↦ .all <| (r.along c chain).map fun f ↦
      Filter.truth separator catalog db last ρ { f with field := Path.qualify last f.leaf }
  | .error _ => ⊥

/-- Conjunction binds tighter than disjunction in the filters of the listing, in their order, and
behind them in all chains of conjoined filters and then any of the chains of disjoined ones. -/
def truth : Truth :=
  .read ((r.filters.filter (¬ ·.IsRelated)).map (fun f ↦
      (f.connective, f.listingTruth separator catalog db table ρ)) ++
    (if r.conjoinedChains = ∅ then []
      else [(.and, r.conjoinedChains.inf (r.chainTruth separator catalog db table ρ .and))]) ++
    if r.disjoinedChains = ∅ then []
      else [(.or, r.disjoinedChains.sup (r.chainTruth separator catalog db table ρ .or))])

end Request

end Request

theorem Filter.connective_onListing (f : Filter) : f.onListing.connective = f.connective := by
  unfold onListing
  split <;> rfl

theorem Filter.truth_onListing {α : Type} {separator : Char} {catalog : Catalog} {db : Database α}
    {table : String} {ρ : Rows α} {f : Filter} (h : ¬ f.IsRelated) :
    f.onListing.truth separator catalog db table ρ =
      f.listingTruth separator catalog db table ρ := by
  unfold onListing listingTruth
  by_cases hdot : '.' ∈ f.field.toList
  · have hop : f.operator = "has" := by_contra fun hop ↦ h ⟨hdot, hop⟩
    rw [if_pos hdot, if_pos hdot, Filter.truth, reading?_has separator hop, Option.bind_some,
      Test.truth?]
    cases catalog.resolve table f.chain <;> rfl
  · rw [if_neg hdot, if_neg hdot]

namespace Request

variable (r : Request)

theorem toFinset_opened_and : (r.opened .and).toFinset = r.conjoinedChains := by
  ext chain
  simp only [opened, chainsBy, List.mem_toFinset, List.mem_eraseDups, conjoinedChains]

theorem toFinset_opened_or : (r.opened .or).toFinset = r.disjoinedChains := by
  ext chain
  simp only [opened, chainsBy, List.mem_toFinset, List.mem_filter, List.mem_eraseDups,
    decide_eq_true_eq, disjoinedChains, conjoinedChains, Finset.mem_sdiff]

end Request

namespace Script

variable {α : Type} {separator : Char} {source : Source} {table : String} (db : Database α)

theorem reads_filterStep (ρ : Rows α) {f : Filter}
    (h : (filterStep separator f).Succeeds source table) :
    (filterStep separator f).reads source.schema db table ρ =
      [(f.connective, f.truth separator source.schema db table ρ)] := by
  obtain ⟨d, rfl, hrun⟩ := h
  unfold filterStep Filter.truth at *
  cases hp : f.predicate separator with
  | error e => simp [hp, Step.run] at hrun
  | ok p =>
    obtain ⟨hreading, hconnective⟩ := Filter.predicate_eq_ok.mp hp
    simp only [hp, Step.run, Draft.restrict, d.tested_table] at hrun
    have ht := Draft.truth_tested source.schema db ρ d.table p.test
    cases hj : Draft.tested { table := d.table } source.schema p.test with
    | error e => simp [hj, Except.map, Outcome.ofExcept] at hrun
    | ok j =>
      rw [hj] at ht
      simp only [Step.reads, hreading, ← ht, hconnective, Except.toOption, Option.map_some,
        Option.toList_some, List.map_cons, List.map_nil, Option.bind_some, Option.getD_some]

theorem reads_alone (ρ : Rows α) {f : Filter}
    (h : (Step.group .and [filterStep separator f]).Succeeds source table) :
    (Step.group .and [filterStep separator f]).reads source.schema db table ρ =
      [(.and, f.truth separator source.schema db table ρ)] := by
  have hf := reads_filterStep db ρ (h.of_group _ (List.mem_singleton_self _))
  simp only [Step.reads, Step.readsAll, hf, List.append_nil, Truth.read_singleton]

theorem reads_existingStep (ρ : Rows α) {c : Connective} {chain storage : String}
    {filters : List Filter}
    (h : (existingStep separator c chain storage filters).Succeeds source table) :
    ∃ hops, source.schema.resolve table chain = .ok hops ∧
      (existingStep separator c chain storage filters).reads source.schema db table ρ =
        [(c, db.reaches ρ hops fun ρ ↦ .all <| filters.map fun f ↦
          Filter.truth separator source.schema db (Catalog.lastTable table hops) ρ
            { f with field := Path.qualify storage f.field })] := by
  obtain ⟨hops, hr, hscope⟩ := h.of_existing
  refine ⟨hops, hr, ?_⟩
  have hreads (ρ : Rows α) := Step.readsAll_map source.schema db ρ fun f hf ↦
    reads_alone db ρ (hscope _ (List.mem_map_of_mem hf))
  have hall (ρ : Rows α) := Truth.read_and (filters.map fun f ↦
    Filter.truth separator source.schema db (Catalog.lastTable table hops) ρ
      { f with field := Path.qualify storage f.field })
  simp only [List.map_map, Function.comp_def] at hall
  simp only [existingStep, Step.reads, hr, hreads, hall]

variable (ρ : Rows α) {r : Request} {tables : String → String}

theorem reads_member (htables : tables = found (source.schema.tableAt table)) {c : Connective}
    {chain : String} (h : (r.member separator tables c chain).Succeeds source table) :
    (r.member separator tables c chain).reads source.schema db table ρ =
      [(c, r.chainTruth separator source.schema db table ρ c chain)] := by
  obtain ⟨hops, hr, hreads⟩ := reads_existingStep db ρ h
  have hlast : tables chain = Catalog.lastTable table hops := by
    rw [htables, found_of_resolve hr]
  rw [Request.member, hreads]
  simp only [Request.chainTruth, hr, hlast, List.map_map, Function.comp_def]

theorem reads_relatedSteps (htables : tables = found (source.schema.tableAt table))
    (c : Connective) (h : ∀ step ∈ relatedSteps separator (.ok ∘ tables) c (r.groups c),
      step.Succeeds source table) :
    Step.readsAll source.schema db table ρ (relatedSteps separator (.ok ∘ tables) c (r.groups c)) =
      if r.opened c = [] then []
      else [(c, .joined c ((r.opened c).map
        (r.chainTruth separator source.schema db table ρ c)))] := by
  rw [relatedSteps_groups] at h ⊢
  by_cases hopened : r.opened c = []
  · simp only [hopened, if_true, Step.readsAll]
  · simp only [hopened, if_false] at h ⊢
    have hscope := (h _ (List.mem_singleton_self _)).of_group
    have hmembers : Step.readsAll source.schema db table ρ (r.members separator tables c) =
        ((r.opened c).map (r.chainTruth separator source.schema db table ρ c)).map (c, ·) := by
      rw [List.map_map]
      exact Step.readsAll_map source.schema db ρ fun chain hchain ↦
        reads_member db ρ htables (hscope _ (List.mem_map_of_mem hchain))
    have hne : (r.opened c).map (r.chainTruth separator source.schema db table ρ c) ≠ [] := by
      simpa using hopened
    rw [Step.readsAll_eq, List.flatMap_singleton, Step.reads_group, hmembers,
      Truth.read_joined hne]
    rw [hmembers]
    simpa using hopened

theorem reads_ofRequest (htables : tables = found (source.schema.tableAt table))
    (h : ∀ step ∈ (ofRequest separator (.ok ∘ tables) r).steps, step.Succeeds source table) :
    .read (Step.readsAll source.schema db table ρ
      (ofRequest separator (.ok ∘ tables) r).steps) =
        r.truth separator source.schema db table ρ := by
  simp only [ofRequest, List.forall_mem_append, and_assoc] at h
  obtain ⟨hroots, -, hand, hor, -⟩ := h
  have hroots : Step.readsAll source.schema db table ρ
      (r.rootFilters.map (filterStep separator)) =
        (r.filters.filter (¬ ·.IsRelated)).map fun f ↦
          (f.connective, f.listingTruth separator source.schema db table ρ) := by
    rw [r.rootFilters_eq, List.map_map] at hroots ⊢
    refine Step.readsAll_map source.schema db ρ fun f hf ↦ ?_
    have hroot : ¬ f.IsRelated := by simpa using (List.mem_filter.mp hf).2
    have hread := reads_filterStep db ρ (hroots _ (List.mem_map_of_mem hf))
    rwa [f.connective_onListing, Filter.truth_onListing hroot] at hread
  have horders : Step.readsAll source.schema db table ρ (r.rootOrders.map Step.order) = [] := by
    simp [Step.readsAll_eq, List.flatMap_map, Step.reads]
  have hincludes : Step.readsAll source.schema db table ρ (includeSteps (.ok ∘ tables) r) = [] := by
    simp only [includeSteps, withTables_ok]
    split <;> rfl
  have hpage : Step.readsAll source.schema db table ρ (pageSteps r.page?) = [] := by
    cases r.page? <;> rfl
  have hand := reads_relatedSteps db ρ htables .and hand
  have hor := reads_relatedSteps db ρ htables .or hor
  rw [Truth.joined, Truth.all_eq_inf, r.toFinset_opened_and] at hand
  rw [Truth.joined, Truth.any_eq_sup, r.toFinset_opened_or] at hor
  simp only [Request.groups] at hand hor
  simp only [ofRequest, Step.readsAll_append, hroots, horders, hand, hor, hincludes, hpage,
    List.append_nil, Request.truth, ← r.toFinset_opened_and, ← r.toFinset_opened_or,
    List.toFinset_eq_empty_iff]

end Script

/-- The rows that a page shows, and those that it counts, are those that its request means. -/
theorem plan_truth {separator : Char} {source : Source} {table : String} {r : Request} {page : Page}
    (h : (plan separator source table r).result = .ok page) {α : Type} (db : Database α)
    (ρ : Rows α) :
    page.select.truth db ρ = r.truth separator source.schema db table ρ ∧
      page.count.truth db ρ = r.truth separator source.schema db table ρ := by
  have hfound := Script.ofRequest_found (Step.firstFailure?_of_runAll source _ _ (plan_ok h rfl).1)
  obtain ⟨hrun, limit, number, rfl⟩ := plan_ok h hfound
  have htruth := (Step.truth_runAll db ρ source _ table hrun).trans
    (Script.reads_ofRequest db ρ rfl (Step.succeeds_of_mem hrun))
  obtain ⟨hselect, hcount⟩ :=
    Draft.truth_page db ρ (Step.runAll source _ { table }).draft limit number
  exact ⟨hselect.trans htruth, hcount.trans htruth⟩

def blog : Source where
  schema := Schema.catalog ⟨[⟨"posts", "author", "users", "author_id", "id"⟩,
    ⟨"posts", "blogTags", "tags", "id", "post_id"⟩]⟩
  count _ := .ok 2

def search : Request where
  filters := [{ field := "title", operator := "ct", value := "lean" },
    { field := "blog_tags.label", operator := "has" },
    { field := "author.name", operator := "eq", value := "x" },
    { field := "blog_tags.label", operator := "sw", value := "p", connective := .or }]

theorem plan_truth_search : ∃ page, (plan '|' blog "posts" search).result = .ok page ∧
    ∀ b, page.select.truth Database.flags (fun _ _ ↦ some b) = .ofBool b ∧
      page.count.truth Database.flags (fun _ _ ↦ some b) = .ofBool b := by
  obtain ⟨page, hpage⟩ : ∃ page, (plan '|' blog "posts" search).result = .ok page :=
    ⟨_, plan_ok_iff.mpr rfl⟩
  have htruth (b : Bool) : search.truth '|' blog.schema Database.flags "posts"
      (fun _ _ ↦ some b) = .ofBool b := by
    cases b <;> decide +kernel
  refine ⟨page, hpage, fun b ↦ ?_⟩
  rw [← htruth b]
  exact plan_truth hpage Database.flags _

end Listing
