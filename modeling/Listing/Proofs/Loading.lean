import Listing.Proofs.NormalForm

namespace Listing

open Sql

namespace Draft

theorem map_stations (path : String) (l : List (String × Relation)) :
    (stations path l).map (·.2) = l.map (·.2) := by
  induction l generalizing path with
  | nil => rfl
  | cons step more ih => rw [stations, List.map_cons, List.map_cons, ih]

theorem map_route {catalog : Catalog} {table chain : String} {hops : List Relation}
    (h : catalog.resolve table chain = .ok hops) : (route chain hops).map (·.2) = hops := by
  have hlength := Catalog.length_walk h
  rw [route, map_stations, List.map_snd_zip (le_of_eq hlength)]

theorem getLast?_route {catalog : Catalog} {table chain : String} {hops : List Relation}
    (h : catalog.resolve table chain = .ok hops) :
    ∃ path hop, (route chain hops).getLast? = some (path, hop) ∧ hops.getLast? = some hop := by
  have hmap := map_route h
  have hne : route chain hops ≠ [] := by
    intro hnil
    rw [hnil] at hmap
    exact Catalog.ne_nil_of_resolve h hmap.symm
  obtain ⟨⟨path, hop⟩, hlast⟩ := Option.ne_none_iff_exists'.mp (mt List.getLast?_eq_none_iff.mp hne)
  refine ⟨path, hop, hlast, ?_⟩
  rw [← hmap, List.getLast?_map, hlast]
  rfl

end Draft

/-- The query that an include leaves for the end of its chain, if it has a scope and the scope
succeeds. -/
def Include.query? (source : Source) (table : String) : Include Step → Option Select
  | .plain _ => none
  | .scoped chain scope =>
    match source.schema.resolve table chain with
    | .error _ => none
    | .ok hops =>
      let o := Step.runAll source scope { table := Catalog.lastTable table hops }
      if o.failure? = none then some o.draft.rowsSelect else none

namespace Step

variable (source : Source)

/-- All that an include can do: nothing if its chain leads nowhere, or else to load its route, and
then to load the end of the route anew if its scope succeeds. -/
theorem runInclude_cases (i : Include Step) (d : Draft) :
    ((runInclude source i d).draft = d ∧ (runInclude source i d).failure? ≠ none ∧
      i.query? source d.table = none) ∨
    ∃ hops, source.schema.resolve d.table i.chain = .ok hops ∧
      (((runInclude source i d).draft = d.loadRoute (Draft.route i.chain hops) ∧
          i.query? source d.table = none) ∨
        ∃ inner : Draft, inner.table = Catalog.lastTable d.table hops ∧
          (runInclude source i d).draft =
            (d.loadRoute (Draft.route i.chain hops)).loadScope (Draft.route i.chain hops) inner ∧
          (runInclude source i d).failure? = none ∧
          i.query? source d.table = some inner.rowsSelect) := by
  rcases i with chain | ⟨chain, scope⟩
  · simp only [runInclude, Include.chain, Include.query?]
    cases hr : source.schema.resolve d.table chain with
    | error f => exact .inl ⟨rfl, Option.some_ne_none f, trivial⟩
    | ok hops => exact .inr ⟨hops, rfl, .inl ⟨rfl, trivial⟩⟩
  · simp only [runInclude, Include.chain, Include.query?]
    cases hr : source.schema.resolve d.table chain with
    | error f => exact .inl ⟨rfl, Option.some_ne_none f, rfl⟩
    | ok hops =>
      refine .inr ⟨hops, rfl, ?_⟩
      have htable : (runAll source scope
          { table := Catalog.lastTable d.table hops }).draft.table = _ := runAll_table scope _
      cases hf : (runAll source scope { table := Catalog.lastTable d.table hops }).failure? with
      | some f =>
        refine .inl ⟨?_, if_neg (by rw [hf]; exact Option.some_ne_none f)⟩
        simp only [Outcome.close, hf]
      | none =>
        refine .inr ⟨_, htable, ?_, ?_, if_pos hf⟩
        · simp only [Outcome.close, hf]
        · simp only [Outcome.close, hf]

section Forall

variable {source} {P : Load → Prop}
  (hbare : ∀ path hop, P (.ofHop path hop { table := hop.target }))
include hbare

theorem forall_runInclude {i : Include Step} {d : Draft} (h : ∀ load ∈ d.loads, P load)
    (hquery : ∀ select ∈ i.query? source d.table, ∀ path hop, select.table = hop.target →
      P (.ofHop path hop select)) :
    ∀ load ∈ (runInclude source i d).draft.loads, P load := by
  have hroute (route : List (String × Relation)) : ∀ load ∈ (d.loadRoute route).loads, P load := by
    intro load hload
    rcases Draft.mem_loadRoute hload with hload | ⟨path, hop, rfl⟩
    · exact h load hload
    · exact hbare path hop
  rcases runInclude_cases source i d with
    ⟨hd, -, -⟩ | ⟨hops, hr, ⟨hd, -⟩ | ⟨inner, htable, hd, -, hq⟩⟩
  · rwa [hd]
  · rw [hd]
    exact hroute _
  · rw [hd]
    intro load hload
    rcases Draft.mem_loadScope hload with hload | ⟨path, hop, hlast, rfl⟩
    · exact hroute _ load hload
    · obtain ⟨path', hop', hlast', hhop⟩ := Draft.getLast?_route hr
      obtain ⟨rfl, rfl⟩ := Prod.mk.inj (Option.some.inj (hlast.symm.trans hlast'))
      apply hquery _ hq path hop
      rw [Draft.rowsSelect, htable, Catalog.lastTable, hhop]
      rfl

theorem forall_runIncludes {includes : List (Include Step)} {d : Draft}
    (h : ∀ load ∈ d.loads, P load) (hquery : ∀ i ∈ includes, ∀ select ∈ i.query? source d.table,
      ∀ path hop, select.table = hop.target → P (.ofHop path hop select)) :
    ∀ load ∈ (runIncludes source includes d).draft.loads, P load := by
  induction includes generalizing d with
  | nil => exact h
  | cons i more ih =>
    obtain ⟨hi, hmore⟩ := List.forall_mem_cons.mp hquery
    have hfirst := forall_runInclude hbare h hi
    have htable := runInclude_table source i d
    rw [runIncludes]
    rcases Outcome.draft_andThen_or (runInclude source i d) (runIncludes source more) with hd | hd
    · rwa [hd]
    · rw [hd]
      exact ih hfirst (by rwa [htable])

theorem forall_run {step : Step} {d : Draft} (h : ∀ load ∈ d.loads, P load)
    (hquery : ∀ includes, step = .load includes → ∀ i ∈ includes,
      ∀ select ∈ i.query? source d.table, ∀ path hop, select.table = hop.target →
        P (.ofHop path hop select)) :
    ∀ load ∈ (run source step d).draft.loads, P load := by
  by_cases hstep : ∃ includes, step = .load includes
  · obtain ⟨includes, rfl⟩ := hstep
    exact forall_runIncludes hbare h (hquery includes rfl)
  · push Not at hstep
    rwa [(run_frame source step d).2 hstep]

theorem forall_runAll {steps : List Step} {d : Draft} (h : ∀ load ∈ d.loads, P load)
    (hquery : ∀ includes, .load includes ∈ steps → ∀ i ∈ includes,
      ∀ select ∈ i.query? source d.table, ∀ path hop, select.table = hop.target →
        P (.ofHop path hop select)) :
    ∀ load ∈ (runAll source steps d).draft.loads, P load := by
  induction steps generalizing d with
  | nil => exact h
  | cons step more ih =>
    have hfirst : ∀ load ∈ (run source step d).draft.loads, P load :=
      forall_run hbare h fun includes hstep ↦ hquery includes (hstep ▸ List.mem_cons_self)
    rw [runAll]
    rcases Outcome.draft_andThen_or (run source step d) (runAll source more) with hd | hd
    · rwa [hd]
    · rw [hd]
      refine ih hfirst fun includes hmem ↦ ?_
      rw [run_table]
      exact hquery includes (List.mem_cons_of_mem _ hmem)

end Forall

end Step

end Listing
