import Listing.Proofs.Checks
import Listing.Proofs.Hops
import Listing.Proofs.Replay

namespace Listing

open Catalog

theorem Outcome.andThen_congr {o : Outcome} {next next' : Draft → Outcome}
    (h : next o.draft = next' o.draft) : o.andThen next = o.andThen next' := by
  simp only [andThen, h]

namespace Step

/-- All steps along the chain fail alike and leave the query as it was, but for what was included
before they came to the chain. -/
structure Blocked (source : Source) (d : Draft) (chain : String) (f : Failure) : Prop where
  existing : ∀ c scope, run source (.existing chain c scope) d = { draft := d, failure? := some f }
  has : ∀ c, run source (.restrict ⟨.has chain, c⟩) d = { draft := d, failure? := some f }
  tableAt : run source (.tableAt chain) d = { draft := d, failure? := some f }
  load : ∀ before i after, Include.chain i = chain →
    run source (.load (before ++ i :: after)) d =
      (runIncludes source before d).andThen fun d' ↦ { draft := d', failure? := some f }

variable {source : Source} {chain : String} {f : Failure}

theorem runInclude_blocked {i : Include Step} {d : Draft}
    (h : source.schema.resolve d.table i.chain = .error f) :
    runInclude source i d = { draft := d, failure? := some f } := by
  rcases i with chain | ⟨chain, scope⟩
  · change source.schema.resolve d.table chain = .error f at h
    rw [runInclude, h]
    rfl
  · change source.schema.resolve d.table chain = .error f at h
    simp only [runInclude, h]

theorem runIncludes_blocked {i : Include Step} {d : Draft} (before after : List (Include Step))
    (h : source.schema.resolve d.table i.chain = .error f) :
    runIncludes source (before ++ i :: after) d =
      (runIncludes source before d).andThen fun d' ↦ { draft := d', failure? := some f } := by
  induction before generalizing d with
  | nil =>
    rw [List.nil_append, runIncludes, runIncludes, Outcome.andThen_of_draft, runInclude_blocked h]
    rfl
  | cons first before ih =>
    rw [List.cons_append, runIncludes, runIncludes, Outcome.andThen_assoc]
    apply Outcome.andThen_congr
    apply ih
    rw [runInclude_table]
    exact h

theorem blocked {d : Draft} (h : source.schema.resolve d.table chain = .error f) :
    Blocked source d chain f := by
  constructor
  case existing =>
    intro c scope
    rw [run, h]
  case has =>
    intro c
    rw [run, Draft.restrict, Draft.tested, h]
    rfl
  case tableAt =>
    rw [run, Catalog.tableAt, h]
    rfl
  case load =>
    rintro before i after rfl
    exact runIncludes_blocked before after h

end Step

namespace Schema

variable {schema : Schema}

theorem follows_append {table : String} {names more : List String} {hops : List Relation} :
    schema.Follows table (names ++ more) hops ↔ ∃ first later, schema.Follows table names first ∧
      schema.Follows (lastTable table first) more later ∧ hops = first ++ later := by
  induction names generalizing table hops with
  | nil => simp [follows_nil]
  | cons name names ih =>
    rw [List.cons_append, follows_cons]
    simp only [ih, follows_cons]
    constructor
    · rintro ⟨hop, -, hrelation, ⟨first, later, hfirst, hlater, rfl⟩, rfl⟩
      exact ⟨hop :: first, later, ⟨hop, first, hrelation, hfirst, rfl⟩,
        by rwa [lastTable_cons], rfl⟩
    · rintro ⟨-, later, ⟨hop, first, hrelation, hfirst, rfl⟩, hlater, rfl⟩
      rw [lastTable_cons] at hlater
      exact ⟨hop, first ++ later, hrelation, ⟨first, later, hfirst, hlater, rfl⟩, rfl⟩

/-- Some chain leads from `root` to the table, unless it is `root` itself. No chain has names with
dots in them. -/
def Reaches (schema : Schema) (root table : String) : Prop :=
  ∃ names hops, (∀ name ∈ names, '.' ∉ name.toList) ∧ schema.Follows root names hops ∧
    lastTable root hops = table

theorem reaches_self (schema : Schema) (root : String) : schema.Reaches root root :=
  ⟨[], [], fun _ h ↦ absurd h List.not_mem_nil, follows_nil.mpr rfl, rfl⟩

/-- Chains with an empty segment lead nowhere from `root`, and no step can go along them. -/
def RefusesEmpty (schema : Schema) (root : String) : Prop :=
  ∀ chain, "" ∈ Text.parts '.' chain → ∃ owner name,
    schema.resolve root chain = .error (.unknownRelation owner name) ∧
      ∀ (count : Sql.Select → Except Failure UInt64) (d : Draft), d.table = root →
        Step.Blocked ⟨schema, count⟩ d chain (.unknownRelation owner name)

theorem refusesEmpty_of_lacks {root : String}
    (h : ∀ table, schema.Reaches root table → schema.Lacks table "") :
    schema.RefusesEmpty root := by
  intro chain hempty
  cases hresolve : schema.resolve root chain with
  | error f =>
    obtain ⟨owner, name, rfl, -⟩ := walk_eq_error.mp hresolve
    refine ⟨owner, name, rfl, fun count d hd ↦ Step.blocked ?_⟩
    rw [hd]
    exact hresolve
  | ok hops =>
    obtain ⟨before, after, hparts⟩ := List.append_of_mem hempty
    have hfollows : schema.Follows root (before ++ "" :: after) hops :=
      hparts ▸ walk_eq_ok.mp hresolve
    obtain ⟨first, later, hfirst, hlater, -⟩ := follows_append.mp hfollows
    obtain ⟨hop, -, hrelation, -, -⟩ := follows_cons.mp hlater
    have hdots : ∀ name ∈ before, '.' ∉ name.toList := fun name hname ↦
      Text.not_mem_of_mem_parts (hparts ▸ List.mem_append_left _ hname)
    have hlacks := h _ ⟨before, first, hdots, hfirst, rfl⟩
    rw [relation?_eq_none.mpr hlacks] at hrelation
    cases hrelation

theorem lacks_of_refusesEmpty {root table : String} (h : schema.RefusesEmpty root)
    (hreaches : schema.Reaches root table) : schema.Lacks table "" := by
  obtain ⟨names, hops, hdots, hfollows, rfl⟩ := hreaches
  by_contra hlacks
  obtain ⟨hop, hrelation⟩ := Option.ne_none_iff_exists'.mp (mt relation?_eq_none.mp hlacks)
  have hparts : Text.parts '.' (".".intercalate (names ++ [""])) = names ++ [""] := by
    apply Text.parts_intercalate (List.append_ne_nil_of_right_ne_nil names (List.cons_ne_nil _ _))
    intro name hname
    rcases List.mem_append.mp hname with hname | hname
    · exact hdots name hname
    · rw [List.mem_singleton.mp hname]
      exact List.not_mem_nil
  have hwhole : schema.Follows root (names ++ [""]) (hops ++ [hop]) :=
    follows_append.mpr ⟨hops, [hop], hfollows,
      follows_cons.mpr ⟨hop, [], hrelation, follows_nil.mpr rfl, rfl⟩, rfl⟩
  have hresolve : schema.resolve root (".".intercalate (names ++ [""])) = .ok (hops ++ [hop]) :=
    walk_eq_ok.mpr (hparts.symm ▸ hwhole)
  obtain ⟨owner, name, herror, -⟩ := h (".".intercalate (names ++ [""])) <| by
    rw [hparts]
    exact List.mem_append_right _ List.mem_cons_self
  rw [hresolve] at herror
  cases herror

/-- An empty segment names a relation if and only if there is a relation without a name. -/
theorem refusesEmpty_iff (schema : Schema) :
    (∀ root, schema.RefusesEmpty root ↔
      ∀ table, schema.Reaches root table → schema.Lacks table "") ∧
    ((∀ root, schema.RefusesEmpty root) ↔ ∀ relation ∈ schema.relations, relation.name ≠ "") := by
  refine ⟨fun root ↦ ⟨fun h table ↦ lacks_of_refusesEmpty h, refusesEmpty_of_lacks⟩, ?_, ?_⟩
  · intro h relation hrelation hname
    have hlacks := lacks_of_refusesEmpty (h relation.owner) (schema.reaches_self relation.owner)
    exact hlacks relation hrelation ⟨rfl, hname⟩
  · intro h root
    apply refusesEmpty_of_lacks
    intro table _ relation hrelation hnamed
    exact h relation hrelation hnamed.2

def unnamed : Schema where
  relations := [⟨"posts", "", "users", "author_id", "id"⟩,
    ⟨"users", "company", "companies", "company_id", "id"⟩]

/-- The company is even loaded under the path of another chain. -/
theorem empty_segment_resolves : "" ∈ Text.parts '.' "" ∧
    unnamed.resolve "posts" "" = .ok [⟨"posts", "", "users", "author_id", "id"⟩] ∧
    (Step.run ⟨unnamed, fun _ ↦ .ok 0⟩ (.load [.plain ".company"]) { table := "posts" }).failure? =
      none ∧
    (Step.run ⟨unnamed, fun _ ↦ .ok 0⟩ (.load [.plain ".company"])
      { table := "posts" }).draft.loads.map (·.path) = ["", "company"] := by decide +kernel

end Schema

end Listing
