import Listing.Proofs.Places
import Listing.Proofs.Reachable
import Listing.Proofs.Walks

namespace Listing

namespace Sql

/-- The first member of an existence: the equation that joins its rows to the row at hand. -/
def Condition.IsJoin (catalog : Catalog) (table : String) (c : Condition) : Prop :=
  ∃ hop owner name, catalog.relation? owner name = some hop ∧ hop.target = table ∧
    c = .atom hop.joins

mutual

/-- A condition inside another one joins two members or more, and an existence conjoins its own
join with other members. -/
def Condition.Normal (catalog : Catalog) : Condition → Prop
  | .atom _ => True
  | .existing table c members =>
    c = .and ∧ (∃ first ∈ members.head?, first.IsJoin catalog table) ∧
      Condition.NormalAll catalog members
  | .joined _ members => 2 ≤ members.length ∧ Condition.NormalAll catalog members

def Condition.NormalAll (catalog : Catalog) : List Condition → Prop
  | [] => True
  | c :: more => c.Normal catalog ∧ Condition.NormalAll catalog more

end

variable {catalog : Catalog}

theorem Condition.normalAll_iff {members : List Condition} :
    NormalAll catalog members ↔ ∀ c ∈ members, c.Normal catalog := by
  induction members with
  | nil => exact iff_of_true trivial fun c hc ↦ absurd hc List.not_mem_nil
  | cons c more ih => rw [NormalAll, ih, List.forall_mem_cons]

structure Junction.Normal (catalog : Catalog) (j : Junction) : Prop where
  ne_nil : j.members ≠ []
  members : ∀ c ∈ j.members, c.Normal catalog

theorem Junction.normal_single {c : Condition} (h : c.Normal catalog) :
    (single c).Normal catalog := by
  refine ⟨List.cons_ne_nil _ _, fun c' hc ↦ ?_⟩
  obtain rfl : c' = c := List.mem_singleton.mp hc
  exact h

theorem Junction.Normal.toCondition {j : Junction} (h : j.Normal catalog) :
    j.toCondition.Normal catalog := by
  obtain ⟨connective, members⟩ := j
  match members, h with
  | [], h => exact absurd rfl h.ne_nil
  | [c], h => exact h.members c (List.mem_singleton_self c)
  | c :: d :: more, h =>
    refine ⟨?_, Condition.normalAll_iff.mpr h.members⟩
    simp only [List.length_cons]
    omega

theorem Junction.normal_narrow {c : Condition} {j? : Option Junction} (hc : c.Normal catalog)
    (hj : ∀ j ∈ j?, j.Normal catalog) : (narrow c j?).Normal catalog := by
  match j?, hj with
  | none, _ => exact normal_single hc
  | some ⟨.and, members⟩, hj =>
    have h := hj _ rfl
    refine ⟨List.append_ne_nil_of_right_ne_nil members (List.cons_ne_nil c []), fun c' hc' ↦ ?_⟩
    rcases List.mem_append.mp hc' with hm | hm
    · exact h.members c' hm
    · obtain rfl := List.mem_singleton.mp hm
      exact hc
  | some ⟨.or, members⟩, hj =>
    have h := (hj _ rfl).toCondition
    refine ⟨List.cons_ne_nil _ _, fun c' hc' ↦ ?_⟩
    rcases List.mem_pair.mp hc' with rfl | rfl
    · exact h
    · exact hc

mutual

/-- What existences inside a condition ask of their rows. -/
def Condition.inner : Condition → List Junction
  | .atom _ => []
  | .existing _ c members => ⟨c, members⟩ :: Condition.innerAll members
  | .joined _ members => Condition.innerAll members

def Condition.innerAll : List Condition → List Junction
  | [] => []
  | c :: more => c.inner ++ Condition.innerAll more

end

mutual

theorem Condition.Normal.inner : ∀ {c : Condition}, c.Normal catalog →
    ∀ j ∈ c.inner, j.Normal catalog
  | .atom _, _, j, hj => absurd hj List.not_mem_nil
  | .existing table c members, h, j, hj => by
    obtain ⟨-, ⟨first, hfirst, -⟩, hall⟩ := h
    rcases List.mem_cons.mp hj with rfl | hj
    · refine ⟨fun hnil ↦ ?_, Condition.normalAll_iff.mp hall⟩
      simp only at hnil
      rw [hnil] at hfirst
      exact Option.some_ne_none first hfirst.symm
    · exact Condition.innerAll_normal hall j hj
  | .joined c members, h, j, hj => Condition.innerAll_normal h.2 j hj

theorem Condition.innerAll_normal : ∀ {members : List Condition},
    Condition.NormalAll catalog members → ∀ j ∈ Condition.innerAll members, j.Normal catalog
  | [], _, j, hj => absurd hj List.not_mem_nil
  | c :: more, h, j, hj => by
    rcases List.mem_append.mp hj with hj | hj
    · exact Condition.Normal.inner h.1 j hj
    · exact Condition.innerAll_normal h.2 j hj

end

def Select.junctions (s : Select) : List Junction :=
  s.condition?.elim [] fun j ↦ j :: Condition.innerAll j.members

theorem Select.normal_junctions {s : Select} (h : ∀ j ∈ s.condition?, j.Normal catalog) :
    ∀ j ∈ s.junctions, j.Normal catalog := by
  intro j hj
  unfold junctions at hj
  cases hc : s.condition? with
  | none => simp [hc] at hj
  | some outer =>
    have houter := h outer hc
    rw [hc, Option.elim_some] at hj
    rcases List.mem_cons.mp hj with rfl | hj
    · exact houter
    · exact Condition.innerAll_normal (Condition.normalAll_iff.mpr houter.members) j hj

end Sql

open Sql

theorem Catalog.length_walk {catalog : Catalog} {table : String} {names : List String}
    {hops : List Relation} (h : catalog.walk table names = .ok hops) :
    hops.length = names.length := by
  induction names generalizing table hops with
  | nil =>
    obtain rfl : [] = hops := Except.ok.inj h
    rfl
  | cons name names ih =>
    obtain ⟨hop, more, -, hw, rfl⟩ := walk_cons_eq_ok.mp h
    rw [List.length_cons, List.length_cons, ih hw]

theorem Catalog.ne_nil_of_resolve {catalog : Catalog} {table chain : String}
    {hops : List Relation} (h : catalog.resolve table chain = .ok hops) : hops ≠ [] := by
  have hlength := length_walk h
  rw [Text.length_parts] at hlength
  exact List.ne_nil_of_length_eq_add_one hlength

theorem Catalog.lastTable_of_targets {catalog : Catalog} {P : String → Prop}
    (h : ∀ owner name relation, catalog.relation? owner name = some relation → P relation.target)
    {table chain : String} {hops : List Relation} (hr : catalog.resolve table chain = .ok hops) :
    P (lastTable table hops) := by
  have hlast := List.getLast?_eq_some_getLast (ne_nil_of_resolve hr)
  obtain ⟨owner, name, hrelation⟩ := exists_of_mem_walk hr _ (List.getLast_mem _)
  rw [lastTable, hlast]
  exact h owner name _ hrelation

def Sql.Atom.tested? : Atom → Option Column
  | .compare column _ _ | .oneOf column _ | .noneOf column _ | .null column | .notNull column =>
    some column
  | .joins _ _ => none

def Test.field? : Test → Option String
  | .compare field _ _ | .oneOf field _ | .noneOf field _ | .null field | .notNull field =>
    some field
  | .has _ => none

namespace Draft

variable {catalog : Catalog}

theorem flatten_runs (clauses : List Clause) : (runs clauses).flatten = clauses := by
  induction clauses with
  | nil => rfl
  | cons c more ih =>
    cases more with
    | nil => rfl
    | cons d more =>
      obtain ⟨run, later, hruns, -⟩ := runs_cons d more
      rw [hruns] at ih
      cases hd : d.connective with
      | and =>
        simp only [runs, hd, hruns, List.modifyHead_cons, List.flatten_cons,
          List.cons_append] at ih ⊢
        rw [ih]
      | or =>
        simp only [runs, hd, hruns, List.flatten_cons, List.cons_append, List.nil_append] at ih ⊢
        rw [ih]

theorem ne_nil_of_mem_runs {clauses run : List Clause} (h : run ∈ runs clauses) : run ≠ [] := by
  induction clauses generalizing run with
  | nil => exact absurd h List.not_mem_nil
  | cons c more ih =>
    cases more with
    | nil =>
      obtain rfl := List.mem_singleton.mp h
      exact List.cons_ne_nil c []
    | cons d more =>
      obtain ⟨first, later, hruns, -⟩ := runs_cons d more
      rw [hruns] at ih
      cases hd : d.connective with
      | and =>
        simp only [runs, hd, hruns, List.modifyHead_cons] at h
        rcases List.mem_cons.mp h with rfl | h
        · exact List.cons_ne_nil _ _
        · exact ih (List.mem_cons_of_mem _ h)
      | or =>
        simp only [runs, hd, hruns] at h
        rcases List.mem_cons.mp h with rfl | h
        · exact List.cons_ne_nil _ _
        · exact ih h

theorem normal_runJunction {clauses run : List Clause}
    (h : ∀ c ∈ clauses, c.condition.Normal catalog) (hrun : run ∈ runs clauses) :
    (runJunction run).Normal catalog := by
  have hne := ne_nil_of_mem_runs hrun
  refine ⟨by simpa [runJunction] using hne, ?_⟩
  intro member hmember
  obtain ⟨c, hc, rfl⟩ := List.mem_map.mp hmember
  have hmem : c ∈ clauses := by
    rw [← flatten_runs clauses]
    exact List.mem_flatten_of_mem hrun hc
  exact (h c hmem).toCondition

theorem normal_condition? {d : Draft} (h : ∀ c ∈ d.clauses, c.condition.Normal catalog) :
    ∀ j ∈ d.condition?, j.Normal catalog := by
  intro j hj
  have hrun (run : List Clause) (hr : run ∈ runs d.clauses) : (runJunction run).Normal catalog :=
    normal_runJunction h hr
  unfold condition? at hj
  split at hj
  · exact absurd hj (Option.not_mem_none j)
  · rename_i run hruns
    obtain rfl := Option.some.inj hj
    exact hrun run (hruns ▸ List.mem_singleton_self run)
  · rename_i runs hnil _
    obtain rfl := Option.some.inj hj
    refine ⟨by simpa using hnil, fun member hmember ↦ ?_⟩
    obtain ⟨run, hr, rfl⟩ := List.mem_map.mp hmember
    exact (hrun run hr).toCondition

theorem normal_nested {hops : List Relation} {inner : Option Condition}
    (hhops : ∀ hop ∈ hops, ∃ owner name, catalog.relation? owner name = some hop)
    (h : ∀ c ∈ inner, c.Normal catalog) : ∀ c ∈ nested hops inner, c.Normal catalog := by
  induction hops with
  | nil => exact h
  | cons hop more ih =>
    intro c hc
    obtain rfl := Option.some.inj hc
    obtain ⟨⟨owner, name, hrelation⟩, hmore⟩ := List.forall_mem_cons.mp hhops
    refine ⟨rfl, ⟨_, rfl, hop, owner, name, hrelation, rfl, rfl⟩, trivial, ?_⟩
    rw [Condition.normalAll_iff]
    intro member hmember
    exact ih hmore member (Option.mem_toList.mp hmember)

theorem normal_existence {table chain : String} {hops : List Relation} {inner : Option Junction}
    (hr : catalog.resolve table chain = .ok hops) (h : ∀ j ∈ inner, j.Normal catalog) :
    (existence hops inner).Normal catalog := by
  have hne := Catalog.ne_nil_of_resolve hr
  have hinner : ∀ c ∈ inner.map Junction.toCondition, c.Normal catalog := by
    intro c hc
    obtain ⟨j, hj, rfl⟩ := Option.mem_map.mp hc
    exact (h j hj).toCondition
  have hnested : ∀ c ∈ nested hops (inner.map Junction.toCondition), c.Normal catalog :=
    normal_nested (Catalog.exists_of_mem_walk hr) hinner
  cases hops with
  | nil => exact absurd rfl hne
  | cons hop more =>
    refine ⟨List.cons_ne_nil _ _, fun c hc ↦ hnested c ?_⟩
    exact Option.mem_toList.mp hc

theorem tested_cases {d : Draft} {catalog : Catalog} {t : Test} {j : Junction}
    (h : d.tested catalog t = .ok j) :
    (t.field? = none ∧ ∃ chain hops, catalog.resolve d.table chain = .ok hops ∧
      j = existence hops none) ∨
    ∃ field a, t.field? = some field ∧ a.tested? = some (d.column field) ∧
      j = .single (.atom a) := by
  cases t with
  | has chain =>
    cases hr : catalog.resolve d.table chain with
    | error f => simp [tested, hr, Except.map] at h
    | ok hops =>
      obtain rfl : existence hops none = j := by simpa [tested, hr, Except.map] using h
      exact .inl ⟨rfl, chain, hops, hr, rfl⟩
  | compare field op raw => exact .inr ⟨field, _, rfl, rfl, (Except.ok.inj h).symm⟩
  | oneOf field raws => exact .inr ⟨field, _, rfl, rfl, (Except.ok.inj h).symm⟩
  | noneOf field raws => exact .inr ⟨field, _, rfl, rfl, (Except.ok.inj h).symm⟩
  | null field => exact .inr ⟨field, _, rfl, rfl, (Except.ok.inj h).symm⟩
  | notNull field => exact .inr ⟨field, _, rfl, rfl, (Except.ok.inj h).symm⟩

theorem normal_tested {d : Draft} {t : Test} {j : Junction}
    (h : d.tested catalog t = .ok j) : j.Normal catalog := by
  rcases tested_cases h with ⟨-, chain, hops, hr, rfl⟩ | ⟨field, a, -, -, rfl⟩
  · exact normal_existence hr fun j hj ↦ absurd hj (Option.not_mem_none j)
  · exact Junction.normal_single trivial

structure Normal (catalog : Catalog) (d : Draft) : Prop where
  clauses : ∀ c ∈ d.clauses, c.condition.Normal catalog
  loads : ∀ load ∈ d.loads, ∀ j ∈ load.select.condition?, j.Normal catalog

theorem Normal.push {d : Draft} {j : Junction} (h : d.Normal catalog) (c : Connective)
    (hj : j.Normal catalog) : (d.push c j).Normal catalog := by
  refine ⟨fun clause hc ↦ ?_, h.loads⟩
  rcases List.mem_append.mp hc with hc | hc
  · exact h.clauses clause hc
  · obtain rfl := List.mem_singleton.mp hc
    exact hj

theorem Normal.loadRoute {d : Draft} (h : d.Normal catalog) (route : List (String × Relation)) :
    (d.loadRoute route).Normal catalog := by
  obtain ⟨loads, hroute⟩ := d.loadRoute_eq route
  constructor
  case clauses =>
    rw [hroute]
    exact h.clauses
  case loads =>
    intro load hload j hj
    rcases mem_loadRoute hload with hload | ⟨path, hop, rfl⟩
    · exact h.loads load hload j hj
    · exact absurd hj (Option.not_mem_none j)

theorem Normal.loadScope {d inner : Draft} (h : d.Normal catalog) (hinner : inner.Normal catalog)
    (route : List (String × Relation)) : (d.loadScope route inner).Normal catalog := by
  obtain ⟨loads, hscope⟩ := d.loadScope_eq route inner
  constructor
  case clauses =>
    rw [hscope]
    exact h.clauses
  case loads =>
    intro load hload j hj
    rcases mem_loadScope hload with hload | ⟨path, hop, -, rfl⟩
    · exact h.loads load hload j hj
    · exact normal_condition? hinner.clauses j hj

theorem Built.normal {source : Source} {d : Draft} (h : d.Built source) :
    d.Normal source.schema := by
  induction h with
  | fresh table =>
    constructor
    · exact fun c hc ↦ absurd hc List.not_mem_nil
    · exact fun load hload ↦ absurd hload List.not_mem_nil
  | test c _ ht ih => exact ih.push c (normal_tested ht)
  | @group d inner c _ _ _ ih ihinner =>
    unfold pushGroup
    split
    · rename_i j hj
      exact ih.push c (normal_condition? ihinner.clauses j hj)
    · exact ih
  | existing c _ hr _ _ ih ihinner =>
    exact ih.push c (normal_existence hr (normal_condition? ihinner.clauses))
  | order o _ ih => exact ⟨ih.clauses, ih.loads⟩
  | limit n _ ih => exact ⟨ih.clauses, ih.loads⟩
  | offset n _ ih => exact ⟨ih.clauses, ih.loads⟩
  | route _ _ ih => exact ih.loadRoute _
  | scope _ _ _ _ ih ihinner => exact ih.loadScope ihinner _

/-- The queries that a draft stands for: its own, and those of what it loads, for all rows or for
those of some parents. -/
inductive Queries (d : Draft) : Select → Prop
  | select : Queries d d.select
  | count : Queries d d.countSelect
  | page (limit number : UInt64) : Queries d (d.page limit number).select
  | load {load : Load} : load ∈ d.loads → Queries d load.select
  | keyed {load : Load} (keys : List Value) : load ∈ d.loads → Queries d (load.keyed keys)

theorem Normal.junctions {d : Draft} (h : d.Normal catalog) {s : Select} (hs : d.Queries s) :
    ∀ j ∈ s.junctions, j.Normal catalog := by
  have hown := normal_condition? h.clauses
  refine Select.normal_junctions ?_
  cases hs with
  | select => exact hown
  | count => exact hown
  | page limit number =>
    obtain ⟨limit?, offset?, hselect⟩ := d.select_page limit number
    rw [hselect]
    exact hown
  | load hload => exact h.loads _ hload
  | keyed keys hload =>
    intro j hj
    obtain rfl := Option.some.inj hj
    exact Junction.normal_narrow trivial (h.loads _ hload)

end Draft

end Listing
