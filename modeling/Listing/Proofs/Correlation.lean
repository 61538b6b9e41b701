import Listing.Proofs.Clauses
import Listing.Proofs.Walks

namespace Listing

open Sql Catalog

/-- Each hop starts at the table that the one before it ends at. -/
def Linked (table : String) : List Relation → Prop
  | [] => True
  | hop :: more => hop.owner = table ∧ Linked hop.target more

theorem Schema.owner_of_relation? {schema : Schema} {owner name : String} {hop : Relation}
    (h : schema.relation? owner name = some hop) : hop.owner = owner ∧ hop.name = name := by
  rw [relation?, List.findRev?_eq_find?_reverse] at h
  simpa using List.find?_some h

theorem Schema.linked_walk {schema : Schema} {table : String} {names : List String}
    {hops : List Relation} (h : schema.catalog.walk table names = .ok hops) : Linked table hops := by
  induction names generalizing table hops with
  | nil =>
    obtain rfl : [] = hops := Except.ok.inj h
    trivial
  | cons name names ih =>
    obtain ⟨hop, more, hr, hw, rfl⟩ := Catalog.walk_cons_eq_ok.mp h
    exact ⟨(Schema.owner_of_relation? hr).1, ih hw⟩

namespace Sql.Database

variable {α : Type} (db : Database α)

/-- Rows from one to the other along the hops: each holds in the column of the target what the
row before it holds in the column of the owner. -/
inductive Leads : List Relation → Row α → Row α → Prop
  | here (row : Row α) : Leads [] row row
  | hop {hop : Relation} {more : List Relation} {row next last : Row α} :
      next ∈ db.rows hop.target → db.equal (next hop.targetColumn) (row hop.ownerColumn) = ⊤ →
      Leads more next last → Leads (hop :: more) row last

theorem leads_nil {row last : Row α} : db.Leads [] row last ↔ last = row := by
  constructor
  · rintro ⟨⟩
    rfl
  · rintro rfl
    exact .here last

theorem leads_cons {hop : Relation} {more : List Relation} {row last : Row α} :
    db.Leads (hop :: more) row last ↔ ∃ next ∈ db.rows hop.target,
      db.equal (next hop.targetColumn) (row hop.ownerColumn) = ⊤ ∧ db.Leads more next last := by
  constructor
  · rintro ⟨⟩
    exact ⟨_, ‹_›, ‹_›, ‹_›⟩
  · rintro ⟨next, hrow, hjoin, hmore⟩
    exact .hop hrow hjoin hmore

theorem truth_joins (ρ : Rows α) (hop : Relation) : hop.joins.truth db ρ =
    db.equal (ρ hop.target hop.targetColumn) (ρ hop.owner hop.ownerColumn) := rfl

theorem reaches_iff_leads {table : String} {hops : List Relation} {inner : Rows α → Truth}
    {P : Row α → Prop} (hlinked : Linked table hops)
    (hself : ∀ hop ∈ hops, hop.target ≠ hop.owner)
    (hinner : ∀ ρ, inner ρ = ⊤ ↔ P (ρ (lastTable table hops))) (ρ : Rows α) :
    db.reaches ρ hops inner = ⊤ ↔ ∃ last, db.Leads hops (ρ table) last ∧ P last := by
  induction hops generalizing table ρ with
  | nil =>
    simp only [reaches, hinner, leads_nil, exists_eq_left, Catalog.lastTable_nil]
  | cons hop more ih =>
    obtain ⟨rfl, hmore⟩ := hlinked
    have hne : hop.owner ≠ hop.target := (hself hop List.mem_cons_self).symm
    have hlater := ih hmore (fun h hm ↦ hself h (List.mem_cons_of_mem _ hm))
      (by simpa only [Catalog.lastTable_cons] using hinner)
    -- The row of the target does not hide that of the owner, since the tables differ.
    simp only [reaches_cons, truth_joins, hlater, Function.update_self,
      Function.update_of_ne hne, leads_cons]
    constructor
    · rintro ⟨next, hrow, hjoin, last, hleads, hlast⟩
      exact ⟨last, ⟨next, hrow, hjoin, hleads⟩, hlast⟩
    · rintro ⟨last, ⟨next, hrow, hjoin, hleads⟩, hlast⟩
      exact ⟨next, hrow, hjoin, last, hleads, hlast⟩

/-- In each table one row that holds `true` throughout and one that holds `false`. -/
def flags : Database Bool where
  rows _ := [fun _ ↦ some true, fun _ ↦ some false]
  same := (· == ·)
  holds _ b _ := b

theorem mem_flags (table : String) (b : Bool) : (fun _ ↦ some b) ∈ flags.rows table := by
  cases b
  · exact .tail _ (.head _)
  · exact .head _

theorem eq_of_flags_leads {hops : List Relation} {b : Bool} {last : Row Bool}
    (h : flags.Leads hops (fun _ ↦ some b) last) : last = fun _ ↦ some b := by
  generalize hrow : (fun _ ↦ some b : Row Bool) = row at h
  induction h with
  | here row => rfl
  | @hop hop more row next last hnext hjoin _ ih =>
    subst hrow
    have hn : next = fun _ ↦ some b := by
      simp only [flags, List.mem_cons, List.not_mem_nil, or_false] at hnext
      rcases hnext with rfl | rfl <;> cases b <;> simp_all [equal, flags]
    exact (ih hn.symm).trans hn

theorem flags_reaches {table : String} {hops : List Relation} {inner : Rows Bool → Truth}
    {a b : Bool} (hlinked : Linked table hops)
    (hself : a = b ∨ ∃ hop ∈ hops, hop.target = hop.owner) {ρ : Rows Bool}
    (hρ : ρ table = fun _ ↦ some a)
    (hinner : ∀ ρ, ρ (lastTable table hops) = (fun _ ↦ some b) → inner ρ = ⊤) :
    flags.reaches ρ hops inner = ⊤ := by
  induction hops generalizing table a ρ with
  | nil =>
    obtain rfl : a = b := by simpa using hself
    exact hinner ρ hρ
  | cons hop more ih =>
    obtain ⟨rfl, hmore⟩ := hlinked
    rw [reaches_cons]
    -- Up to the first hop of a table to itself the rows hold `a`; from there on they may hold `b`.
    by_cases hs : hop.target = hop.owner
    · refine ⟨fun _ ↦ some b, mem_flags _ b, ?_, ?_⟩
      · rw [truth_joins, ← hs, Function.update_self]
        cases b <;> rfl
      · exact ih hmore (.inl rfl) (Function.update_self ..)
          (by simpa only [Catalog.lastTable_cons] using hinner)
    · refine ⟨fun _ ↦ some a, mem_flags _ a, ?_, ?_⟩
      · rw [truth_joins, Function.update_self, Function.update_of_ne (Ne.symm hs), hρ]
        cases a <;> rfl
      · refine ih hmore (hself.imp_right ?_) (Function.update_self ..)
          (by simpa only [Catalog.lastTable_cons] using hinner)
        rintro ⟨other, hmem, ho⟩
        rcases List.mem_cons.mp hmem with rfl | hm
        · exact absurd ho hs
        · exact ⟨other, hm, ho⟩

end Sql.Database

namespace Step

def scopeDraft (source : Source) (table : String) (scope : List Step) : Draft :=
  (runAll source scope { table }).draft

/-- A scope of `table` that succeeds and whose clauses are about columns of that table alone. -/
structure IsOwnScope (source : Source) (table : String) (scope : List Step) : Prop where
  succeeds : (runAll source scope { table }).failure? = none
  own : ∀ j ∈ (scopeDraft source table scope).condition?, ∀ t ∈ j.tables, t = table

theorem run_existing {source : Source} {d : Draft} {chain : String} {hops : List Relation}
    (c : Connective) {scope : List Step} (hchain : source.schema.resolve d.table chain = .ok hops)
    (hscope : (runAll source scope { table := lastTable d.table hops }).failure? = none) :
    (run source (.existing chain c scope) d).failure? = none ∧
      (run source (.existing chain c scope) d).draft = d.push c (Draft.existence hops
        (scopeDraft source (lastTable d.table hops) scope).condition?) := by
  simp only [run, hchain, Outcome.failure?_close, hscope, Outcome.draft_close d _ hscope,
    scopeDraft, and_self]

def flagScope : List Step := [.restrict ⟨.compare "flag" .equal "true", .and⟩]

theorem condition?_flagScope (source : Source) (table : String) :
    (scopeDraft source table flagScope).condition? =
      some (.single (.atom (.compare ⟨table, "flag"⟩ .equal (.bool true)))) := rfl

theorem isOwnScope_flagScope (source : Source) (table : String) :
    IsOwnScope source table flagScope := by
  refine ⟨rfl, fun j hj t ht ↦ ?_⟩
  rw [condition?_flagScope] at hj
  obtain rfl := Option.some.inj hj
  simpa [Junction.tables, Junction.single, Condition.tablesAll, Condition.tables, Atom.columns]
    using ht

theorem truth_flagScope (source : Source) (table : String) (ρ : Rows Bool) :
    (scopeDraft source table flagScope).rowsSelect.truth Database.flags ρ =
      (ρ table "flag").elim .unknown .ofBool := by
  simp only [Select.truth, Draft.rowsSelect, condition?_flagScope, Option.elim_some,
    Junction.truth_single, Condition.truth]
  rfl

theorem IsOwnScope.truth {source : Source} {table : String} {scope : List Step}
    (h : IsOwnScope source table scope) {α : Type} (db : Database α) (ρ : Rows α) :
    (scopeDraft source table scope).rowsSelect.truth db ρ =
      (scopeDraft source table scope).rowsSelect.truth db fun _ ↦ ρ table := by
  simp only [Select.truth, Draft.rowsSelect]
  cases hc : (scopeDraft source table scope).condition? with
  | none => rfl
  | some j => exact Junction.truth_congr db fun t ht ↦ congrArg ρ (h.own j hc t ht)

/-- An existing chain adds one clause. The clause holds of exactly the rows from which others lead
along the hops to one that the scope selects, for all scopes and databases, if and only if no hop
joins a table with itself: there both columns are those of the inner row. -/
theorem existing_iff_leads {schema : Schema} {table chain : String} {hops : List Relation}
    (hchain : schema.resolve table chain = .ok hops) :
    (∀ (source : Source) (d : Draft) (c : Connective) (scope : List Step),
      source.schema = schema → d.table = table →
      (runAll source scope { table := lastTable table hops }).failure? = none →
      (run source (.existing chain c scope) d).failure? = none ∧
        (run source (.existing chain c scope) d).draft = d.push c
          (Draft.existence hops (scopeDraft source (lastTable table hops) scope).condition?)) ∧
    ((∀ hop ∈ hops, hop.target ≠ hop.owner) ↔
      ∀ (source : Source) (scope : List Step), source.schema = schema →
        IsOwnScope source (lastTable table hops) scope →
        ∀ {α : Type} (db : Database α) (ρ : Rows α), ρ table ∈ db.rows table →
          ((Draft.existence hops (scopeDraft source (lastTable table hops) scope).condition?).truth
              db ρ = ⊤ ↔
            ∃ last, db.Leads hops (ρ table) last ∧
              (scopeDraft source (lastTable table hops) scope).rowsSelect.truth db (fun _ ↦ last) =
                ⊤)) := by
  have hlinked : Linked table hops := Schema.linked_walk hchain
  refine ⟨?_, fun hself source scope _ hown α db ρ _ ↦ ?_, fun h ↦ ?_⟩
  · rintro source d c scope hschema rfl hscope
    exact run_existing c (by rw [hschema]; exact hchain) hscope
  · rw [Draft.truth_existence]
    exact db.reaches_iff_leads (P := fun last ↦
      (scopeDraft source _ scope).rowsSelect.truth db (fun _ ↦ last) = ⊤) hlinked hself
      (fun ρ ↦ iff_of_eq (congrArg (· = ⊤) (hown.truth db ρ))) ρ
  · by_contra! hself
    obtain ⟨source, hsource⟩ : ∃ source : Source, source.schema = schema :=
      ⟨⟨schema, fun _ ↦ .ok 0⟩, rfl⟩
    have hiff := h source flagScope hsource (isOwnScope_flagScope source _) Database.flags
      (fun _ _ ↦ some false) (Database.mem_flags table false)
    rw [Draft.truth_existence] at hiff
    obtain ⟨last, hleads, htrue⟩ := hiff.mp <| Database.flags_reaches (a := false) (b := true)
      hlinked (.inr hself) rfl fun ρ hρ ↦ (truth_flagScope source _ ρ).trans (by rw [hρ]; rfl)
    rw [Database.eq_of_flags_leads hleads, truth_flagScope] at htrue
    exact absurd htrue (by decide)

def manager : Relation := ⟨"employees", "manager", "employees", "manager_id", "id"⟩

def desk : Relation := ⟨"employees", "desk", "desks", "id", "employee_id"⟩

def staff : Source := ⟨Schema.catalog ⟨[manager, desk]⟩, fun _ ↦ .ok 0⟩

theorem existing_iff_leads_desk :
    Schema.resolve ⟨[manager, desk]⟩ "employees" "desk" = .ok [desk] ∧
      ∀ b, (Draft.existence [desk] (scopeDraft staff "desks" flagScope).condition?).truth
          Database.flags (fun _ _ ↦ some b) = ⊤ ↔
        ∃ last, Database.flags.Leads [desk] (fun _ ↦ some b) last ∧
          (scopeDraft staff "desks" flagScope).rowsSelect.truth Database.flags (fun _ ↦ last) = ⊤ := by
  have hchain : Schema.resolve ⟨[manager, desk]⟩ "employees" "desk" = .ok [desk] := by
    decide +kernel
  refine ⟨hchain, fun b ↦ ?_⟩
  have hother : ∀ hop ∈ [desk], hop.target ≠ hop.owner := by decide
  exact (existing_iff_leads hchain).2.mp hother staff flagScope rfl (isOwnScope_flagScope staff _)
    Database.flags _ (Database.mem_flags "employees" b)

/-- The clause asks for any employee who is their own manager, whoever manages the row. -/
theorem manager_not_leads :
    Schema.resolve ⟨[manager, desk]⟩ "employees" "manager" = .ok [manager] ∧
      (Draft.existence [manager] (scopeDraft staff "employees" flagScope).condition?).truth
        Database.flags (fun _ _ ↦ some false) = ⊤ ∧
      ¬ ∃ last, Database.flags.Leads [manager] (fun _ ↦ some false) last ∧
        (scopeDraft staff "employees" flagScope).rowsSelect.truth Database.flags (fun _ ↦ last) =
          ⊤ := by
  refine ⟨by decide +kernel, by decide +kernel, ?_⟩
  rintro ⟨last, hleads, htrue⟩
  rw [Database.eq_of_flags_leads hleads, truth_flagScope] at htrue
  exact absurd htrue (by decide)

end Step

end Listing
