import Listing.Proofs.Correlation
import Listing.Proofs.NormalForm

namespace Listing

open Catalog

namespace Schema

variable (schema : Schema)

def IsLatest (hop : Relation) : Prop :=
  ∃ earlier later, schema.relations = earlier ++ hop :: later ∧
    ∀ r ∈ later, ¬ (r.owner = hop.owner ∧ r.name = hop.name)

def Lacks (owner name : String) : Prop :=
  ∀ r ∈ schema.relations, ¬ (r.owner = owner ∧ r.name = name)

/-- One relation for each name, none of them replaced, from table to table. -/
structure Follows (table : String) (names : List String) (hops : List Relation) : Prop where
  names : hops.map Relation.name = names
  latest : ∀ hop ∈ hops, schema.IsLatest hop
  linked : Linked table hops

/-- The names lead to a table that lacks a relation of the next name. -/
def Misses (table : String) (names : List String) (owner name : String) : Prop :=
  ∃ before after hops, names = before ++ name :: after ∧ schema.Follows table before hops ∧
    lastTable table hops = owner ∧ schema.Lacks owner name

variable {schema}

theorem relation?_eq_some {owner name : String} {hop : Relation} :
    schema.relation? owner name = some hop ↔
      schema.IsLatest hop ∧ hop.owner = owner ∧ hop.name = name := by
  rw [relation?, List.findRev?_eq_find?_reverse, List.find?_eq_some_iff_append, IsLatest]
  constructor
  · rintro ⟨hhop, later, earlier, hrelations, hlater⟩
    obtain ⟨rfl, rfl⟩ : hop.owner = owner ∧ hop.name = name := by simpa using hhop
    refine ⟨⟨earlier.reverse, later.reverse, ?_, ?_⟩, rfl, rfl⟩
    · simpa using congrArg List.reverse hrelations
    · intro r hr
      simpa [imp_iff_not_or] using hlater r (List.mem_reverse.mp hr)
  · rintro ⟨⟨earlier, later, hrelations, hlater⟩, rfl, rfl⟩
    refine ⟨by simp, later.reverse, earlier.reverse, ?_, ?_⟩
    · simp [hrelations]
    · intro r hr
      simpa [imp_iff_not_or] using hlater r (List.mem_reverse.mp hr)

theorem relation?_eq_none {owner name : String} :
    schema.relation? owner name = none ↔ schema.Lacks owner name := by
  simp [relation?, Lacks, List.findRev?_eq_find?_reverse]

theorem follows_nil {table : String} {hops : List Relation} :
    schema.Follows table [] hops ↔ hops = [] := by
  constructor
  · exact fun h ↦ List.map_eq_nil_iff.mp h.names
  · rintro rfl
    exact ⟨rfl, fun hop h ↦ absurd h List.not_mem_nil, trivial⟩

theorem follows_cons {table name : String} {names : List String} {hops : List Relation} :
    schema.Follows table (name :: names) hops ↔ ∃ hop more,
      schema.relation? table name = some hop ∧ schema.Follows hop.target names more ∧
        hop :: more = hops := by
  simp only [relation?_eq_some]
  constructor
  · rintro ⟨hnames, hlatest, hlinked⟩
    obtain ⟨hop, more, rfl, hname, hmore⟩ := List.map_eq_cons_iff.mp hnames
    obtain ⟨hhop, hlater⟩ := List.forall_mem_cons.mp hlatest
    exact ⟨hop, more, ⟨hhop, hlinked.1, hname⟩, ⟨hmore, hlater, hlinked.2⟩, rfl⟩
  · rintro ⟨hop, more, ⟨hhop, howner, rfl⟩, ⟨rfl, hlater, hlinked⟩, rfl⟩
    exact ⟨rfl, List.forall_mem_cons.mpr ⟨hhop, hlater⟩, howner, hlinked⟩

theorem walk_eq_ok {table : String} {names : List String} {hops : List Relation} :
    schema.catalog.walk table names = .ok hops ↔ schema.Follows table names hops := by
  induction names generalizing table hops with
  | nil => rw [walk, follows_nil, Except.ok.injEq, eq_comm]
  | cons name names ih =>
    rw [walk_cons_eq_ok, follows_cons]
    simp only [ih]
    rfl

theorem misses_nil {table owner name : String} : ¬ schema.Misses table [] owner name := by
  rintro ⟨before, after, hops, hnames, -⟩
  exact List.append_ne_nil_of_right_ne_nil before (List.cons_ne_nil name after) hnames.symm

theorem misses_cons {table first owner name : String} {names : List String} :
    schema.Misses table (first :: names) owner name ↔
      (schema.relation? table first = none ∧ table = owner ∧ first = name) ∨
        ∃ hop, schema.relation? table first = some hop ∧ schema.Misses hop.target names owner name := by
  constructor
  · rintro ⟨before, after, hops, hnames, hfollows, rfl, hlacks⟩
    cases before with
    | nil =>
      obtain ⟨rfl, -⟩ := List.cons.inj hnames
      obtain rfl := follows_nil.mp hfollows
      exact Or.inl ⟨relation?_eq_none.mpr hlacks, rfl, rfl⟩
    | cons _ before =>
      obtain ⟨rfl, rfl⟩ := List.cons.inj hnames
      obtain ⟨hop, more, hrelation, hmore, rfl⟩ := follows_cons.mp hfollows
      rw [lastTable_cons] at hlacks ⊢
      exact Or.inr ⟨hop, hrelation, before, after, more, rfl, hmore, rfl, hlacks⟩
  · rintro (⟨hnone, rfl, rfl⟩ | ⟨hop, hrelation, before, after, more, rfl, hmore, howner, hlacks⟩)
    · exact ⟨[], names, [], rfl, follows_nil.mpr rfl, rfl, relation?_eq_none.mp hnone⟩
    · refine ⟨first :: before, after, hop :: more, rfl, ?_, ?_, hlacks⟩
      · exact follows_cons.mpr ⟨hop, more, hrelation, hmore, rfl⟩
      · rw [lastTable_cons, howner]

theorem walk_eq_error {table : String} {names : List String} {f : Failure} :
    schema.catalog.walk table names = .error f ↔
      ∃ owner name, f = .unknownRelation owner name ∧ schema.Misses table names owner name := by
  induction names generalizing table with
  | nil => simp [walk, misses_nil]
  | cons first names ih =>
    simp only [walk_cons_eq_error, misses_cons, ih]
    constructor
    · rintro (⟨hnone, rfl⟩ | ⟨hop, hrelation, owner, name, rfl, hmisses⟩)
      · exact ⟨table, first, rfl, Or.inl ⟨hnone, rfl, rfl⟩⟩
      · exact ⟨owner, name, rfl, Or.inr ⟨hop, hrelation, hmisses⟩⟩
    · rintro ⟨owner, name, rfl, ⟨hnone, rfl, rfl⟩ | ⟨hop, hrelation, hmisses⟩⟩
      · exact Or.inl ⟨hnone, rfl⟩
      · exact Or.inr ⟨hop, hrelation, owner, name, rfl, hmisses⟩

/-- How chains are resolved: one relation for each segment, linked from the root on, or the first
segment that is missing; and a longer chain like its two halves, one after the other. -/
structure ResolvesChains (root : String) : Prop where
  ok : ∀ chain hops, schema.resolve root chain = .ok hops ↔
    schema.Follows root (Text.parts '.' chain) hops
  length : ∀ chain hops, schema.resolve root chain = .ok hops →
    hops.length = chain.toList.count '.' + 1
  error : ∀ chain f, schema.resolve root chain = .error f ↔ ∃ owner name,
    f = .unknownRelation owner name ∧ schema.Misses root (Text.parts '.' chain) owner name
  append_ok : ∀ a b hops last, schema.resolve root a = .ok hops → hops.getLast? = some last →
    schema.resolve root (a ++ "." ++ b) = (schema.resolve last.target b).map (hops ++ ·)
  append_error : ∀ a b f, schema.resolve root a = .error f →
    schema.resolve root (a ++ "." ++ b) = .error f

theorem resolves_chains (schema : Schema) (root : String) : schema.ResolvesChains root := by
  have hnotnil {chain : String} {hops : List Relation}
      (h : schema.resolve root chain = .ok hops) : hops ≠ [] := Catalog.ne_nil_of_resolve h
  constructor
  case ok => exact fun chain hops ↦ walk_eq_ok
  case length =>
    intro chain hops h
    rw [← Text.length_parts]
    exact length_walk h
  case error => exact fun chain f ↦ walk_eq_error
  case append_ok =>
    intro a b hops last h hlast
    have hend : lastTable root hops = last.target := by rw [lastTable, hlast, Option.elim_some]
    rw [resolve, resolve_append, ← resolve, h, ← hend]
    rfl
  case append_error =>
    intro a b f h
    rw [resolve, resolve_append, ← resolve, h]
    rfl

example : shelf.resolve "posts" "author.ghost" = .error (.unknownRelation "users" "ghost") ∧
    (shelf.resolve "posts" "author.company").map (·.map Relation.target) =
      .ok ["users", "companies"] := by decide +kernel

end Schema

end Listing
