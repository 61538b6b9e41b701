import Listing.Proofs.Correlation
import Listing.Proofs.NormalForm

namespace Listing

namespace Sql

/-- An atom of a condition where it stands: in a query of `table`, which may itself stand in a
query of another table. -/
structure Standing where
  around? : Option String
  table : String
  atom : Atom

namespace Standing

def test? (s : Standing) : Option (String × Column) := s.atom.tested?.map (s.table, ·)

/-- A join compares a column of its own query with one of the query right around that. -/
def IsCorrelated (s : Standing) : Prop :=
  ∀ left right, s.atom = .joins left right → left.table = s.table ∧ s.around? = some right.table

/-- A test is about the table of its own query, and a join is correlated. -/
structure IsOwn (s : Standing) : Prop where
  test : ∀ column ∈ s.atom.tested?, column.table = s.table
  correlated : s.IsCorrelated

end Standing

mutual

/-- The atoms of a condition. An existence is a query of its own. -/
def Condition.standing (around? : Option String) (table : String) : Condition → List Standing
  | .atom a => [⟨around?, table, a⟩]
  | .existing inner _ members => Condition.standingAll (some table) inner members
  | .joined _ members => Condition.standingAll around? table members

def Condition.standingAll (around? : Option String) (table : String) :
    List Condition → List Standing
  | [] => []
  | c :: more => c.standing around? table ++ Condition.standingAll around? table more

end

theorem Condition.standingAll_eq (around? : Option String) (table : String)
    (members : List Condition) :
    standingAll around? table members = members.flatMap (standing around? table) := by
  induction members with
  | nil => rfl
  | cons c more ih => rw [standingAll, ih, List.flatMap_cons]

def Junction.standing (around? : Option String) (table : String) (j : Junction) : List Standing :=
  j.members.flatMap (Condition.standing around? table)

theorem Junction.standing_toCondition (around? : Option String) (table : String) (j : Junction) :
    j.toCondition.standing around? table = j.standing around? table := by
  obtain ⟨connective, members⟩ := j
  match members with
  | [] => rfl
  | [c] => exact (List.append_nil _).symm
  | c :: d :: more => exact Condition.standingAll_eq around? table (c :: d :: more)

def Select.standing (s : Select) : List Standing :=
  s.condition?.elim [] (Junction.standing none s.table)

def Select.tested (s : Select) : List (String × Column) := s.standing.filterMap Standing.test?

end Sql

open Sql

def Clause.standing (around? : Option String) (table : String) (c : Clause) : List Standing :=
  c.condition.standing around? table

namespace Draft

variable (around? : Option String) (table : String)

theorem standing_runJunction (run : List Clause) :
    (runJunction run).standing around? table = run.flatMap (Clause.standing around? table) := by
  rw [runJunction, Junction.standing, List.flatMap_map]
  refine List.flatMap_congr fun c _ ↦ ?_
  exact c.condition.standing_toCondition around? table

theorem standing_condition? (d : Draft) :
    d.condition?.elim [] (Junction.standing around? table) =
      d.clauses.flatMap (Clause.standing around? table) := by
  have hclauses : d.clauses.flatMap (Clause.standing around? table) =
      (runs d.clauses).flatMap fun run ↦ run.flatMap (Clause.standing around? table) := by
    conv_lhs => rw [← flatten_runs d.clauses, List.flatten_eq_flatMap, List.flatMap_assoc]
    rfl
  rw [hclauses]
  unfold condition?
  split
  · rename_i hruns
    rw [hruns]
    rfl
  · rename_i run hruns
    rw [hruns, Option.elim_some, standing_runJunction, List.flatMap_singleton]
  · rw [Option.elim_some, Junction.standing, List.flatMap_map]
    refine List.flatMap_congr fun run _ ↦ ?_
    rw [Junction.standing_toCondition, standing_runJunction]

theorem standing_rowsSelect (d : Draft) :
    d.rowsSelect.standing = d.clauses.flatMap (Clause.standing none d.table) :=
  standing_condition? none d.table d

variable {around? table}

theorem standing_nested_cons (hop : Relation) (more : List Relation) (inner : Option Condition) :
    (nested (hop :: more) inner).elim [] (Condition.standing around? table) =
      ⟨some table, hop.target, hop.joins⟩ ::
        (nested more inner).elim [] (Condition.standing (some table) hop.target) := by
  rw [nested, Option.elim_some, Condition.standing, Condition.standingAll_eq, List.flatMap_cons]
  cases nested more inner with
  | none => rfl
  | some c => exact congrArg _ (List.append_nil _)

theorem correlated_nested {hops : List Relation} {inner : Option Condition}
    (hlinked : Linked table hops) (hinner : ∀ around?, ∀ s ∈ inner.elim []
      (Condition.standing around? (Catalog.lastTable table hops)), s.IsCorrelated) :
    ∀ s ∈ (nested hops inner).elim [] (Condition.standing around? table), s.IsCorrelated := by
  induction hops generalizing table around? with
  | nil => exact hinner around?
  | cons hop more ih =>
    obtain ⟨rfl, hmore⟩ := hlinked
    rw [Catalog.lastTable_cons] at hinner
    intro s hs
    rw [standing_nested_cons] at hs
    rcases List.mem_cons.mp hs with rfl | hs
    · intro left right hatom
      injection hatom with hleft hright
      rw [← hleft, ← hright]
      exact ⟨rfl, rfl⟩
    · exact ih hmore hinner s hs

theorem tests_nested {hops : List Relation} {inner : Option Condition}
    {tests : List (String × Column)} (hinner : ∀ around?, (inner.elim []
      (Condition.standing around? (Catalog.lastTable table hops))).filterMap Standing.test? =
        tests) :
    ((nested hops inner).elim [] (Condition.standing around? table)).filterMap Standing.test? =
      tests := by
  induction hops generalizing table around? with
  | nil => exact hinner around?
  | cons hop more ih =>
    rw [Catalog.lastTable_cons] at hinner
    rw [standing_nested_cons, List.filterMap_cons_none rfl]
    exact ih hinner

theorem standing_existence (around? : Option String) (table : String) (hops : List Relation)
    (inner : Option Junction) : (existence hops inner).standing around? table =
      (nested hops (inner.map Junction.toCondition)).elim []
        (Condition.standing around? table) := by
  rw [existence, Junction.standing]
  cases nested hops (inner.map Junction.toCondition) with
  | none => rfl
  | some c => exact List.append_nil _

theorem standing_map_toCondition (around? : Option String) (table : String)
    (inner : Option Junction) :
    (inner.map Junction.toCondition).elim [] (Condition.standing around? table) =
      inner.elim [] (Junction.standing around? table) := by
  cases inner with
  | none => rfl
  | some j => exact j.standing_toCondition around? table

/-- All joins of a draft and of what it loads are correlated, wherever its clauses are put. -/
structure Correlated (d : Draft) : Prop where
  clauses : ∀ c ∈ d.clauses, ∀ around?, ∀ s ∈ c.standing around? d.table, s.IsCorrelated
  loads : ∀ load ∈ d.loads, ∀ s ∈ load.select.standing, s.IsCorrelated

theorem Correlated.condition? {d : Draft} (h : d.Correlated) (around? : Option String) :
    ∀ s ∈ d.condition?.elim [] (Junction.standing around? d.table), s.IsCorrelated := by
  intro s hs
  rw [standing_condition?] at hs
  obtain ⟨c, hc, hs⟩ := List.mem_flatMap.mp hs
  exact h.clauses c hc around? s hs

theorem Correlated.push {d : Draft} {j : Junction} (h : d.Correlated) (c : Connective)
    (hj : ∀ around?, ∀ s ∈ j.standing around? d.table, s.IsCorrelated) :
    (d.push c j).Correlated := by
  refine ⟨fun clause hc ↦ ?_, h.loads⟩
  rcases List.mem_append.mp hc with hc | hc
  · exact h.clauses clause hc
  · obtain rfl := List.mem_singleton.mp hc
    exact hj

theorem correlated_existence {hops : List Relation} {inner : Draft} (hlinked : Linked table hops)
    (hinner : inner.Correlated) (htable : inner.table = Catalog.lastTable table hops)
    (around? : Option String) :
    ∀ s ∈ (existence hops inner.condition?).standing around? table, s.IsCorrelated := by
  rw [standing_existence]
  refine correlated_nested hlinked fun around? ↦ ?_
  rw [standing_map_toCondition, ← htable]
  exact hinner.condition? around?

theorem correlated_tested {d : Draft} {schema : Schema} {t : Test} {j : Junction}
    (h : d.tested schema.catalog t = .ok j) (around? : Option String) :
    ∀ s ∈ j.standing around? d.table, s.IsCorrelated := by
  rcases tested_cases h with ⟨-, chain, hops, hr, rfl⟩ | ⟨field, a, -, ha, rfl⟩
  · rw [standing_existence]
    refine correlated_nested (Schema.linked_walk hr) fun _ s hs ↦ ?_
    exact absurd hs List.not_mem_nil
  · intro s hs left right hjoins
    obtain rfl := List.mem_singleton.mp hs
    obtain rfl : a = .joins left right := hjoins
    cases ha

theorem Correlated.loadRoute {d : Draft} (h : d.Correlated) (route : List (String × Relation)) :
    (d.loadRoute route).Correlated := by
  obtain ⟨loads, hroute⟩ := d.loadRoute_eq route
  constructor
  case clauses =>
    rw [hroute]
    exact h.clauses
  case loads =>
    intro load hload s hs
    rcases mem_loadRoute hload with hload | ⟨path, hop, rfl⟩
    · exact h.loads load hload s hs
    · exact absurd hs List.not_mem_nil

theorem Correlated.loadScope {d inner : Draft} (h : d.Correlated) (hinner : inner.Correlated)
    (route : List (String × Relation)) : (d.loadScope route inner).Correlated := by
  obtain ⟨loads, hscope⟩ := d.loadScope_eq route inner
  constructor
  case clauses =>
    rw [hscope]
    exact h.clauses
  case loads =>
    intro load hload s hs
    rcases mem_loadScope hload with hload | ⟨path, hop, -, rfl⟩
    · exact h.loads load hload s hs
    · exact hinner.condition? none s hs

theorem Built.correlated {source : Source} {schema : Schema} (hschema : source.schema = schema)
    {d : Draft} (h : d.Built source) : d.Correlated := by
  induction h with
  | fresh table =>
    constructor
    · exact fun c hc ↦ absurd hc List.not_mem_nil
    · exact fun load hload ↦ absurd hload List.not_mem_nil
  | test c _ ht ih =>
    rw [hschema] at ht
    exact ih.push c (correlated_tested ht)
  | @group d inner c _ _ htable ih ihinner =>
    unfold pushGroup
    split
    · rename_i j hj
      refine ih.push c fun around? s hs ↦ ihinner.condition? around? s ?_
      rw [hj, htable]
      exact hs
    · exact ih
  | existing c _ hr _ htable ih ihinner =>
    rw [hschema] at hr
    exact ih.push c (correlated_existence (Schema.linked_walk hr) ihinner htable)
  | order o _ ih => exact ⟨ih.clauses, ih.loads⟩
  | limit n _ ih => exact ⟨ih.clauses, ih.loads⟩
  | offset n _ ih => exact ⟨ih.clauses, ih.loads⟩
  | route _ _ ih => exact ih.loadRoute _
  | scope _ _ _ _ ih ihinner => exact ih.loadScope ihinner _

end Draft

end Listing
