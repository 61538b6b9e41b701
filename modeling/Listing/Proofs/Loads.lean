import Listing.Proofs.Correlation
import Listing.Proofs.Loading

namespace Listing

open Sql

theorem Text.stem_of_append {path name stem rest : String} (hname : '.' ∉ name.toList)
    (h : path ++ "." ++ name = stem ++ "." ++ rest) :
    stem = path ∨ ∃ between, path = stem ++ "." ++ between := by
  have hlist : path.toList ++ '.' :: name.toList = stem.toList ++ '.' :: rest.toList := by
    simpa [String.toList_append] using congrArg String.toList h
  rcases List.append_eq_append_iff.mp hlist with ⟨l, hstem, hmore⟩ | ⟨l, hpath, hmore⟩
  · cases l with
    | nil =>
      rw [List.append_nil] at hstem
      exact .inl (String.toList_inj.mp hstem)
    | cons c l =>
      injection hmore with _ hmore
      rw [hmore] at hname
      exact absurd (List.mem_append_right l List.mem_cons_self) hname
  · cases l with
    | nil =>
      rw [List.append_nil] at hpath
      exact .inl (String.toList_inj.mp hpath).symm
    | cons c l =>
      injection hmore with hc _
      refine .inr ⟨String.ofList l, String.toList_inj.mp ?_⟩
      rw [hpath, ← hc]
      simp [String.toList_append]

namespace Load

theorem map_path_put {load : Load} {loads : List Load} (h : load.path ∈ loads.map (·.path)) :
    (put load loads).map (·.path) = loads.map (·.path) := by
  induction loads with
  | nil => exact absurd h List.not_mem_nil
  | cons other more ih =>
    rw [put]
    by_cases hpath : other.path = load.path
    · rw [if_pos hpath, List.map_cons, List.map_cons, hpath]
    · rw [if_neg hpath, List.map_cons, List.map_cons]
      rw [List.map_cons, List.mem_cons] at h
      rw [ih (h.resolve_left (Ne.symm hpath))]

theorem mem_put_of_nodup {load other : Load} {loads : List Load}
    (hnodup : (loads.map (·.path)).Nodup) (h : other ∈ put load loads) :
    other = load ∨ other ∈ loads ∧ other.path ≠ load.path := by
  induction loads with
  | nil => exact .inl (List.mem_singleton.mp h)
  | cons first more ih =>
    rw [List.map_cons, List.nodup_cons] at hnodup
    obtain ⟨hfirst, hmore⟩ := hnodup
    rw [put] at h
    by_cases hpath : first.path = load.path
    · rw [if_pos hpath] at h
      refine (List.mem_cons.mp h).imp_right fun hmem ↦ ⟨List.mem_cons_of_mem _ hmem, ?_⟩
      intro heq
      rw [hpath, ← heq] at hfirst
      exact hfirst (List.mem_map_of_mem hmem)
    · rw [if_neg hpath] at h
      rcases List.mem_cons.mp h with rfl | h
      · exact .inr ⟨List.mem_cons_self, hpath⟩
      · rcases ih hmore h with rfl | ⟨hmem, hne⟩
        · exact .inl rfl
        · exact .inr ⟨List.mem_cons_of_mem _ hmem, hne⟩

end Load

namespace Draft

def paths (d : Draft) : List String := d.loads.map (·.path)

theorem hasLoad_iff {d : Draft} {path : String} : d.hasLoad path ↔ path ∈ d.paths := by
  simp [hasLoad, paths]

theorem loadStation_of_mem {d : Draft} {station : String × Relation} (h : station.1 ∈ d.paths) :
    d.loadStation station = d := if_pos (hasLoad_iff.mpr h)

theorem loadStation_of_not_mem {d : Draft} {station : String × Relation}
    (h : station.1 ∉ d.paths) : d.loadStation station =
      { d with
        loads := d.loads ++ [.ofHop station.1 station.2 { table := station.2.target }] } :=
  if_neg (mt hasLoad_iff.mp h)

theorem paths_loadStation (d : Draft) (station : String × Relation) :
    (d.loadStation station).paths =
      if station.1 ∈ d.paths then d.paths else d.paths ++ [station.1] := by
  by_cases h : station.1 ∈ d.paths
  · rw [loadStation_of_mem h, if_pos h]
  · rw [loadStation_of_not_mem h, if_neg h, paths, List.map_append]
    rfl

theorem mem_paths_loadStation (d : Draft) (station : String × Relation) :
    station.1 ∈ (d.loadStation station).paths := by
  rw [paths_loadStation]
  split
  · assumption
  · exact List.mem_append_right _ (List.mem_singleton_self _)

theorem paths_prefix_loadRoute (d : Draft) (route : List (String × Relation)) :
    d.paths <+: (d.loadRoute route).paths := by
  induction route generalizing d with
  | nil => exact List.prefix_refl _
  | cons station more ih =>
    have hfirst : d.paths <+: (d.loadStation station).paths := by
      rw [paths_loadStation]
      split
      · exact List.prefix_refl _
      · exact List.prefix_append _ _
    rw [loadRoute_cons]
    exact hfirst.trans (ih (d.loadStation station))

theorem mem_paths_loadRoute (d : Draft) (route : List (String × Relation)) :
    ∀ station ∈ route, station.1 ∈ (d.loadRoute route).paths := by
  induction route generalizing d with
  | nil => exact fun station hmem ↦ absurd hmem List.not_mem_nil
  | cons first more ih =>
    intro station hmem
    rw [loadRoute_cons]
    rcases List.mem_cons.mp hmem with rfl | hmem
    · exact (paths_prefix_loadRoute _ more).subset (mem_paths_loadStation d station)
    · exact ih (d.loadStation first) station hmem

theorem paths_loadScope (d : Draft) (route : List (String × Relation)) (inner : Draft) :
    ((d.loadRoute route).loadScope route inner).paths = (d.loadRoute route).paths := by
  unfold loadScope
  cases hlast : route.getLast? with
  | none => rfl
  | some station =>
    exact Load.map_path_put (mem_paths_loadRoute d route station (List.mem_of_getLast? hlast))

end Draft

/-- How what is loaded stands at any time: each path once, behind all that it begins with, as the
last hop of its chain. `latest` is the query that the last scope of a path has left; all rows are
loaded where there is none. -/
structure Draft.Loaded (catalog : Catalog) (latest : String → Option Select) (d : Draft) :
    Prop where
  nodup : d.paths.Nodup
  stems : ∀ before path, before ++ [path] <+: d.paths →
    ∀ stem rest, path = stem ++ "." ++ rest → stem ∈ before
  loads : ∀ load ∈ d.loads, ∃ hops hop, catalog.resolve d.table load.path = .ok hops ∧
    hops.getLast? = some hop ∧
    load = .ofHop load.path hop ((latest load.path).getD { table := hop.target })
  present : ∀ path, latest path ≠ none → path ∈ d.paths

theorem Catalog.ne_empty_of_resolve {catalog : Catalog}
    (hnames : ∀ owner, catalog.relation? owner "" = none) {table path : String}
    {hops : List Relation} (h : catalog.resolve table path = .ok hops) : path ≠ "" := by
  rintro rfl
  obtain ⟨hop, hrelation, -⟩ := (resolve_of_not_mem List.not_mem_nil).mp h
  rw [hnames] at hrelation
  cases hrelation

namespace Draft

variable {catalog : Catalog} {latest : String → Option Select} {d : Draft}

theorem Loaded.stem_mem (h : d.Loaded catalog latest) {path stem rest : String}
    (hpath : path ∈ d.paths) (hstem : path = stem ++ "." ++ rest) : stem ∈ d.paths := by
  obtain ⟨before, after, hpaths⟩ := List.append_of_mem hpath
  rw [List.append_cons] at hpaths
  have hmem := h.stems before path ⟨after, hpaths.symm⟩ stem rest hstem
  rw [hpaths]
  exact List.mem_append_left _ (List.mem_append_left _ hmem)

theorem Loaded.loadStation (h : d.Loaded catalog latest) {station : String × Relation}
    {hops : List Relation} (hr : catalog.resolve d.table station.1 = .ok hops)
    (hlast : hops.getLast? = some station.2)
    (hstems : ∀ stem rest, station.1 = stem ++ "." ++ rest → stem ∈ d.paths) :
    (d.loadStation station).Loaded catalog latest := by
  have hpaths := d.paths_loadStation station
  by_cases hmem : station.1 ∈ d.paths
  · rwa [loadStation_of_mem hmem]
  rw [if_neg hmem] at hpaths
  constructor
  case nodup =>
    rw [hpaths, ← List.concat_eq_append]
    exact h.nodup.concat hmem
  case stems =>
    intro before path hprefix
    rw [hpaths, List.prefix_concat_iff] at hprefix
    rcases hprefix with heq | hprefix
    · obtain ⟨rfl, hpath⟩ := List.append_inj' heq rfl
      obtain rfl := List.singleton_inj.mp hpath
      exact hstems
    · exact h.stems before path hprefix
  case loads =>
    intro load hload
    rw [loadStation_of_not_mem hmem] at hload ⊢
    rcases List.mem_append.mp hload with hload | hload
    · exact h.loads load hload
    · obtain rfl := List.mem_singleton.mp hload
      have hnone : latest station.1 = none := by
        by_contra hsome
        exact hmem (h.present station.1 hsome)
      refine ⟨hops, station.2, hr, hlast, ?_⟩
      change Load.ofHop _ _ _ = Load.ofHop _ _ ((latest station.1).getD _)
      rw [hnone]
      rfl
  case present =>
    intro path hpath
    rw [hpaths]
    exact List.mem_append_left _ (h.present path hpath)

variable (hnames : ∀ owner, catalog.relation? owner "" = none)
include hnames

theorem Loaded.next (h : d.Loaded catalog latest) {path name next : String} {done : List Relation}
    {hop : Relation}
    (hpath : path = "" ∧ done = [] ∨ path ∈ d.paths ∧ catalog.resolve d.table path = .ok done)
    (hname : '.' ∉ name.toList)
    (hrelation : catalog.relation? (Catalog.lastTable d.table done) name = some hop)
    (hnext : (if path = "" then name else path ++ "." ++ name) = next) :
    catalog.resolve d.table next = .ok (done ++ [hop]) ∧
      ∀ stem rest, next = stem ++ "." ++ rest → stem ∈ d.paths := by
  have hlast : catalog.resolve (Catalog.lastTable d.table done) name = .ok [hop] :=
    (Catalog.resolve_of_not_mem hname).mpr ⟨hop, hrelation, rfl⟩
  rcases hpath with ⟨rfl, rfl⟩ | ⟨hmem, hresolve⟩
  · rw [if_pos rfl] at hnext
    subst hnext
    refine ⟨hlast, fun stem rest hstem ↦ ?_⟩
    rw [hstem] at hname
    exact absurd (by simp [String.toList_append]) hname
  · rw [if_neg (Catalog.ne_empty_of_resolve hnames hresolve)] at hnext
    subst hnext
    constructor
    · rw [Catalog.resolve_append, hresolve, Except.bind, hlast]
      rfl
    · intro stem rest hstem
      rcases Text.stem_of_append hname hstem with rfl | ⟨between, hbetween⟩
      · exact hmem
      · exact h.stem_mem hmem hbetween

theorem Loaded.loadStations (h : d.Loaded catalog latest) {path : String} {names : List String}
    {done hops : List Relation}
    (hpath : path = "" ∧ done = [] ∨ path ∈ d.paths ∧ catalog.resolve d.table path = .ok done)
    (hdots : ∀ name ∈ names, '.' ∉ name.toList)
    (hw : catalog.walk (Catalog.lastTable d.table done) names = .ok hops) :
    (d.loadRoute (stations path (names.zip hops))).Loaded catalog latest := by
  induction names generalizing d path done hops with
  | nil => exact h
  | cons name names ih =>
    obtain ⟨hop, more, hrelation, hmore, rfl⟩ := Catalog.walk_cons_eq_ok.mp hw
    obtain ⟨hname, hlater⟩ := List.forall_mem_cons.mp hdots
    rw [List.zip_cons_cons, stations, loadRoute_cons]
    generalize hnext : (if path = "" then name else path ++ "." ++ name) = next
    obtain ⟨hr, hstems⟩ := h.next hnames hpath hname hrelation hnext
    have hstation : (d.loadStation (next, hop)).Loaded catalog latest :=
      h.loadStation hr List.getLast?_concat hstems
    have htable : (d.loadStation (next, hop)).table = d.table := loadRoute_table d [(next, hop)]
    have hpresent := d.mem_paths_loadStation (next, hop)
    rw [← htable] at hr
    refine ih hstation (.inr ⟨hpresent, hr⟩) hlater ?_
    rw [Catalog.lastTable_append, Catalog.lastTable_cons, Catalog.lastTable_nil]
    exact hmore

theorem Loaded.loadRoute (h : d.Loaded catalog latest) {chain : String} {hops : List Relation}
    (hr : catalog.resolve d.table chain = .ok hops) :
    (d.loadRoute (route chain hops)).Loaded catalog latest :=
  h.loadStations hnames (.inl ⟨rfl, rfl⟩) (fun _ ↦ Text.not_mem_of_mem_parts) hr

omit hnames in
theorem parts_getLast?_stations {path : String} {names : List String} {hop : Relation}
    {hops : List Relation} (hpath : path ≠ "") (hdots : ∀ name ∈ names, '.' ∉ name.toList)
    (hlength : hops.length = names.length) {station : String × Relation}
    (h : ((path, hop) :: stations path (names.zip hops)).getLast? = some station) :
    Text.parts '.' station.1 = Text.parts '.' path ++ names := by
  induction names generalizing path hop hops with
  | nil =>
    obtain rfl : (path, hop) = station := Option.some.inj h
    exact (List.append_nil _).symm
  | cons name names ih =>
    obtain ⟨next, more, rfl⟩ := List.exists_cons_of_length_eq_add_one hlength
    obtain ⟨hname, hlater⟩ := List.forall_mem_cons.mp hdots
    have hne : path ++ "." ++ name ≠ "" := by
      intro hempty
      have hlist := congrArg String.toList hempty
      simp [String.toList_append] at hlist
    rw [List.zip_cons_cons, stations, if_neg hpath, List.getLast?_cons_cons] at h
    rw [ih hne hlater (Nat.succ.inj hlength) h, Text.parts_append, Text.parts_of_not_mem hname,
      List.append_assoc, List.singleton_append]

theorem getLast?_route_chain {table chain : String} {hops : List Relation}
    (hr : catalog.resolve table chain = .ok hops) :
    ∃ hop, (route chain hops).getLast? = some (chain, hop) ∧ hops.getLast? = some hop := by
  obtain ⟨path, hop, hlast, hhop⟩ := getLast?_route hr
  suffices hparts : Text.parts '.' path = Text.parts '.' chain by
    have hpath := congrArg (String.intercalate ".") hparts
    rw [Text.intercalate_parts, Text.intercalate_parts] at hpath
    exact ⟨hop, hpath ▸ hlast, hhop⟩
  have hdots : ∀ name ∈ Text.parts '.' chain, '.' ∉ name.toList :=
    fun _ ↦ Text.not_mem_of_mem_parts
  have hlength := Catalog.length_walk hr
  obtain ⟨name, names, hchain⟩ := List.exists_cons_of_ne_nil (Text.parts_ne_nil '.' chain)
  rw [Catalog.resolve, hchain] at hr
  obtain ⟨first, more, hrelation, -, rfl⟩ := Catalog.walk_cons_eq_ok.mp hr
  have hname : name ≠ "" := by
    rintro rfl
    rw [hnames] at hrelation
    cases hrelation
  rw [hchain] at hdots hlength ⊢
  obtain ⟨hdot, hlater⟩ := List.forall_mem_cons.mp hdots
  rw [route, hchain, List.zip_cons_cons, stations, if_pos rfl] at hlast
  rw [parts_getLast?_stations hname hlater (Nat.succ.inj hlength) hlast,
    Text.parts_of_not_mem hdot, List.singleton_append]

theorem Loaded.loadScope (h : d.Loaded catalog latest) {chain : String} {hops : List Relation}
    (hr : catalog.resolve d.table chain = .ok hops) (inner : Draft) :
    ((d.loadRoute (route chain hops)).loadScope (route chain hops) inner).Loaded catalog
      (Function.update latest chain (some inner.rowsSelect)) := by
  have hroute := h.loadRoute hnames hr
  have hpaths := d.paths_loadScope (route chain hops) inner
  have htable := loadRoute_table d (route chain hops)
  obtain ⟨hop, hlast, hhop⟩ := getLast?_route_chain hnames hr
  have hchain := mem_paths_loadRoute d _ _ (List.mem_of_getLast? hlast)
  generalize d.loadRoute (route chain hops) = routed at hroute hpaths htable hchain ⊢
  have hscope : routed.loadScope (route chain hops) inner =
      { routed with loads := (Load.ofHop chain hop inner.rowsSelect).put routed.loads } := by
    rw [Draft.loadScope, hlast]
  constructor
  case nodup =>
    rw [hpaths]
    exact hroute.nodup
  case stems =>
    rw [hpaths]
    exact hroute.stems
  case loads =>
    rw [hscope]
    intro load hload
    rcases Load.mem_put_of_nodup hroute.nodup hload with rfl | ⟨hmem, hne⟩
    · refine ⟨hops, hop, htable ▸ hr, hhop, ?_⟩
      change Load.ofHop _ _ _ =
        Load.ofHop _ _ ((Function.update latest chain (some inner.rowsSelect) chain).getD _)
      rw [Function.update_self]
      rfl
    · have hother : load.path ≠ chain := hne
      rw [Function.update_of_ne hother]
      exact hroute.loads load hmem
  case present =>
    intro path hpath
    rw [hpaths]
    by_cases heq : path = chain
    · rw [heq]
      exact hchain
    · rw [Function.update_of_ne heq] at hpath
      exact hroute.present path hpath

end Draft

/-- The query for a path that the last include to leave one has left. -/
def Include.latest? (source : Source) (table : String) (history : List (Include Step))
    (path : String) : Option Select :=
  ((history.filter (·.chain = path)).filterMap (Include.query? source table)).getLast?

/-- The includes of a call that are carried out: those in front of the first one that fails. -/
def Include.carried (source : Source) (table : String) (includes : List (Include Step)) :
    List (Include Step) :=
  includes.takeWhile fun i ↦ (Step.runInclude source i { table }).failure?.isNone

/-- The includes that calls carry out one after another, whether the calls fail or not. -/
def Include.history (source : Source) (table : String) (calls : List (List (Include Step))) :
    List (Include Step) :=
  calls.flatMap (carried source table)

def Draft.loadAll (source : Source) (d : Draft) (calls : List (List (Include Step))) : Draft :=
  calls.foldl (fun d includes ↦ (Step.run source (.load includes) d).draft) d

theorem Include.latest?_append (source : Source) (table : String) (history : List (Include Step))
    (i : Include Step) : latest? source table (history ++ [i]) =
      (i.query? source table).elim (latest? source table history) fun select ↦
        Function.update (latest? source table history) i.chain (some select) := by
  funext path
  rw [latest?, List.filter_append, List.filterMap_append, List.getLast?_append]
  by_cases hpath : i.chain = path
  · subst hpath
    rw [List.filter_cons_of_pos (by simp)]
    cases hq : i.query? source table with
    | none => simp [hq, latest?]
    | some select => simp [hq]
  · rw [List.filter_cons_of_neg (by simpa using hpath)]
    cases hq : i.query? source table with
    | none => simp [latest?]
    | some select => simp [latest?, Function.update_of_ne (Ne.symm hpath)]

namespace Step

variable (source : Source)

theorem failure?_runInclude_fresh (i : Include Step) (d : Draft) :
    (runInclude source i d).failure? = (runInclude source i { table := d.table }).failure? := by
  rcases i with chain | ⟨chain, scope⟩
  · simp only [runInclude]
    cases source.schema.resolve d.table chain <;> rfl
  · simp only [runInclude]
    cases source.schema.resolve d.table chain with
    | error f => rfl
    | ok hops => simp only [Outcome.failure?_close]

end Step

namespace Draft

variable {source : Source} (hnames : ∀ owner, source.schema.relation? owner "" = none) {d : Draft}
  {history : List (Include Step)}
include hnames

theorem Loaded.runInclude (i : Include Step)
    (h : d.Loaded source.schema (Include.latest? source d.table history)) :
    (Step.runInclude source i d).draft.Loaded source.schema
      (Include.latest? source d.table (history ++ [i])) := by
  rw [Include.latest?_append]
  rcases Step.runInclude_cases source i d with
    ⟨hd, -, hq⟩ | ⟨hops, hr, ⟨hd, hq⟩ | ⟨inner, -, hd, -, hq⟩⟩
  · rw [hd, hq]
    exact h
  · rw [hd, hq]
    exact h.loadRoute hnames hr
  · rw [hd, hq]
    exact h.loadScope hnames hr inner

theorem Loaded.runIncludes (includes : List (Include Step))
    (h : d.Loaded source.schema (Include.latest? source d.table history)) :
    (Step.runIncludes source includes d).draft.Loaded source.schema
      (Include.latest? source d.table (history ++ Include.carried source d.table includes)) := by
  induction includes generalizing d history with
  | nil =>
    rw [Include.carried, List.takeWhile_nil, List.append_nil]
    exact h
  | cons i more ih =>
    have hfirst := h.runInclude hnames i
    have htable := Step.runInclude_table source i d
    rw [Step.runIncludes, Include.carried, List.takeWhile_cons,
      ← Step.failure?_runInclude_fresh source i d]
    cases hf : (Step.runInclude source i d).failure? with
    | some f =>
      have hq : i.query? source d.table = none := by
        rcases Step.runInclude_cases source i d with
          ⟨-, -, hq⟩ | ⟨hops, -, ⟨-, hq⟩ | ⟨inner, -, -, hnone, -⟩⟩
        · exact hq
        · exact hq
        · rw [hnone] at hf
          cases hf
      rw [Include.latest?_append, hq] at hfirst
      simpa [Outcome.andThen, hf] using hfirst
    | none =>
      rw [← htable] at hfirst
      have hmore := ih hfirst
      rw [htable, List.append_assoc] at hmore
      rw [Outcome.draft_andThen _ hf]
      exact hmore

theorem Loaded.loadAll (calls : List (List (Include Step)))
    (h : d.Loaded source.schema (Include.latest? source d.table history)) :
    (d.loadAll source calls).Loaded source.schema
      (Include.latest? source d.table (history ++ Include.history source d.table calls)) := by
  induction calls generalizing d history with
  | nil =>
    rw [Include.history, List.flatMap_nil, List.append_nil]
    exact h
  | cons includes more ih =>
    have htable := Step.runIncludes_table source includes d
    have hfirst := h.runIncludes hnames includes
    rw [← htable] at hfirst
    have hmore := ih hfirst
    rw [htable, List.append_assoc] at hmore
    exact hmore

end Draft

section Carried

variable {source : Source} (hnames : ∀ owner, source.schema.relation? owner "" = none)
include hnames

end Carried

end Listing
