import Listing.Proofs.Correlation
import Mathlib.Data.List.SplitBy

namespace Listing

open Sql

namespace Sql.Truth

/-- The clauses, cut before each disjoined one. The first starts a run however it is joined. -/
def cut (clauses : List (Connective × Truth)) : List (List (Connective × Truth)) :=
  clauses.splitBy fun _ next ↦ next.1 = .and

/-- Of some run all clauses hold. Without clauses there is nothing to hold. -/
def ofClauses? (clauses : List (Connective × Truth)) : Option Truth :=
  if clauses = [] then none else some (any ((cut clauses).map fun run ↦ all (run.map (·.2))))

theorem cut_run (c : Connective) (t : Truth) (ts : List Truth) :
    cut ((c, t) :: ts.map (Connective.and, ·)) = [(c, t) :: ts.map (Connective.and, ·)] := by
  refine List.splitBy_of_isChain (List.cons_ne_nil _ _) ?_
  induction ts generalizing c t with
  | nil => exact List.isChain_singleton _
  | cons u ts ih => exact List.isChain_cons_cons.mpr ⟨rfl, ih .and u⟩

theorem cut_append_or (run more : List (Connective × Truth)) (t : Truth) :
    cut (run ++ (.or, t) :: more) = cut run ++ cut ((.or, t) :: more) := by
  refine List.splitBy_append_cons more ?_
  intro clause _
  rfl

theorem any_cut_run (c : Connective) (t : Truth) (ts : List Truth)
    (clauses : List (Connective × Truth)) :
    any ((cut ((c, t) :: ts.map (Connective.and, ·) ++ clauses)).map fun run ↦
      all (run.map (·.2))) = readFrom (t ⊓ all ts) clauses := by
  have hrun (c : Connective) (t : Truth) (ts : List Truth) :
      all (((c, t) :: ts.map (Connective.and, ·)).map (·.2)) = t ⊓ all ts := by
    simp only [List.map_cons, List.map_map, Function.comp_def, List.map_id', all_cons]
  induction clauses generalizing c t ts with
  | nil =>
    rw [List.append_nil, cut_run, List.map_singleton, hrun]
    exact sup_bot_eq _
  | cons clause more ih =>
    obtain ⟨d, u⟩ := clause
    cases d with
    | and =>
      have hlonger : (c, t) :: ts.map (Connective.and, ·) ++ (.and, u) :: more =
          (c, t) :: (ts ++ [u]).map (Connective.and, ·) ++ more := by
        simp only [List.map_append, List.map_singleton, List.cons_append, List.append_assoc,
          List.nil_append]
      rw [hlonger, ih, all_append, readFrom, ← inf_assoc, all_cons, all_nil, inf_top_eq]
    | or =>
      have hnext := ih .or u []
      rw [all_nil, inf_top_eq] at hnext
      rw [cut_append_or, cut_run, List.singleton_append, List.map_cons, any_cons, hrun, readFrom,
        ← hnext]
      rfl

theorem read_eq_any_cut (c : Connective) (t : Truth) (clauses : List (Connective × Truth)) :
    read ((c, t) :: clauses) =
      any ((cut ((c, t) :: clauses)).map fun run ↦ all (run.map (·.2))) := by
  have h := any_cut_run c t [] clauses
  rw [all_nil, inf_top_eq] at h
  exact h.symm

theorem ofClauses?_eq_read {clauses : List (Connective × Truth)} (h : clauses ≠ []) :
    ofClauses? clauses = some (read clauses) := by
  cases clauses with
  | nil => exact absurd rfl h
  | cons clause clauses =>
    rw [ofClauses?, if_neg h]
    exact congrArg some (read_eq_any_cut clause.1 clause.2 clauses).symm

theorem ofClauses?_getD (clauses : List (Connective × Truth)) :
    (ofClauses? clauses).getD ⊤ = read clauses := by
  by_cases h : clauses = []
  · subst h
    rfl
  · rw [ofClauses?_eq_read h, Option.getD_some]

end Sql.Truth

namespace Step

mutual

/-- A test and an existing chain add a clause whatever they say, a group if its scope does. -/
def adds : Step → Bool
  | .restrict _ => true
  | .existing _ _ _ => true
  | .group _ scope => addsAny scope
  | _ => false

def addsAny : List Step → Bool
  | [] => false
  | step :: more => adds step || addsAny more

end

section Clauses

variable {source : Source}

mutual

theorem clauses_eq_nil (table : String) : ∀ step : Step, step.Succeeds source table →
    (clauses source.schema table step = [] ↔ step.adds = false)
  | .restrict p, h => by
    obtain ⟨d, rfl, hrun⟩ := h
    simp only [run, Draft.restrict, d.tested_table] at hrun
    cases ht : Draft.tested { table := d.table } source.schema p.test with
    | error f => simp [ht, Except.map, Outcome.ofExcept] at hrun
    | ok j => simp [clauses, ht, adds]
  | .existing chain c scope, h => by
    obtain ⟨hops, hr, -⟩ := h.of_existing
    simp [clauses, hr, adds]
  | .group c scope, h => by
    have ih := clausesAll_eq_nil table scope h.of_group
    have hnone := Draft.condition?_eq_none
      (d := { table, clauses := clausesAll source.schema table scope })
    rw [clauses, adds, ← ih, ← hnone, List.map_eq_nil_iff, Option.toList_eq_nil_iff]
  | .order _, _ => iff_of_true rfl rfl
  | .load _, _ => iff_of_true rfl rfl
  | .limit _, _ => iff_of_true rfl rfl
  | .offset _, _ => iff_of_true rfl rfl
  | .tableAt _, _ => iff_of_true rfl rfl
  | .countRows, _ => iff_of_true rfl rfl
  | .fail _, _ => iff_of_true rfl rfl

theorem clausesAll_eq_nil (table : String) : ∀ steps : List Step,
    (∀ step ∈ steps, step.Succeeds source table) →
      (clausesAll source.schema table steps = [] ↔ addsAny steps = false)
  | [], _ => iff_of_true rfl rfl
  | step :: more, h => by
    obtain ⟨hstep, hmore⟩ := List.forall_mem_cons.mp h
    rw [clausesAll, addsAny, List.append_eq_nil_iff, Bool.or_eq_false_iff,
      clauses_eq_nil table step hstep, clausesAll_eq_nil table more hmore]

end

end Clauses

section Truth

variable {α : Type} (catalog : Catalog) (db : Database α)

mutual

/-- The clause of a step and what it is of a row. A group is what its scope is, and an existing
chain is one existence inside the other, of which the last has what its scope is, if it is
anything. -/
def clauseTruth? (table : String) (ρ : Rows α) : Step → Option (Connective × Truth)
  | .restrict p => (p.test.truth? catalog db ρ table).map (p.connective, ·)
  | .group c scope => (Truth.ofClauses? (clauseTruths table ρ scope)).map (c, ·)
  | .existing chain c scope =>
    match catalog.resolve table chain with
    | .ok hops =>
      let last := Catalog.lastTable table hops
      some (c, db.reaches ρ hops fun ρ ↦ (Truth.ofClauses? (clauseTruths last ρ scope)).getD ⊤)
    | .error _ => none
  | _ => none

def clauseTruths (table : String) (ρ : Rows α) : List Step → List (Connective × Truth)
  | [] => []
  | step :: more => (clauseTruth? table ρ step).toList ++ clauseTruths table ρ more

end

mutual

theorem toList_clauseTruth? (table : String) (ρ : Rows α) : ∀ step : Step,
    (clauseTruth? catalog db table ρ step).toList = reads catalog db table ρ step
  | .restrict p => by
    rw [clauseTruth?, reads]
    cases p.test.truth? catalog db ρ table <;> rfl
  | .group c scope => by
    have ih := clauseTruths_eq_readsAll table ρ scope
    rw [clauseTruth?, reads, ih]
    cases hr : readsAll catalog db table ρ scope with
    | nil => rfl
    | cons first more =>
      rw [Truth.ofClauses?_eq_read (List.cons_ne_nil first more)]
      rfl
  | .existing chain c scope => by
    rw [clauseTruth?, reads]
    cases catalog.resolve table chain with
    | error f => rfl
    | ok hops =>
      have ih (ρ : Rows α) := clauseTruths_eq_readsAll (Catalog.lastTable table hops) ρ scope
      simp only [ih, Truth.ofClauses?_getD, Option.toList_some]
  | .order _ => rfl
  | .load _ => rfl
  | .limit _ => rfl
  | .offset _ => rfl
  | .tableAt _ => rfl
  | .countRows => rfl
  | .fail _ => rfl

theorem clauseTruths_eq_readsAll (table : String) (ρ : Rows α) : ∀ steps : List Step,
    clauseTruths catalog db table ρ steps = readsAll catalog db table ρ steps
  | [] => rfl
  | step :: more => by
    rw [clauseTruths, readsAll, toList_clauseTruth? table ρ step,
      clauseTruths_eq_readsAll table ρ more]

end

/-- A program that succeeds leaves a condition unless none of its steps adds a clause. The
condition holds if all clauses of some run hold, and so on in every scope. -/
theorem condition?_program {source : Source} {steps : List Step} {table : String}
    (h : (runAll source steps { table }).failure? = none) :
    ((runAll source steps { table }).draft.condition? = none ↔ addsAny steps = false) ∧
      ∀ {α : Type} (db : Database α) (ρ : Rows α),
        (runAll source steps { table }).draft.condition?.map (Junction.truth db ρ) =
          Truth.ofClauses? (clauseTruths source.schema db table ρ steps) := by
  have hclauses := runAll_clauses source steps { table } h
  rw [List.nil_append] at hclauses
  have hnone : (runAll source steps { table }).draft.condition? = none ↔
      clausesAll source.schema table steps = [] := by
    rw [Draft.condition?_eq_none, hclauses]
  refine ⟨hnone.trans (clausesAll_eq_nil table steps (succeeds_of_mem h)), ?_⟩
  intro α db ρ
  have htruth := truth_runAll db ρ source steps table h
  have hreads := mapAll_clauses source.schema db table ρ steps
  rw [← Draft.truth_condition?] at htruth
  rw [clauseTruths_eq_readsAll]
  cases hc : (runAll source steps { table }).draft.condition? with
  | none =>
    rw [← hreads, hnone.mp hc]
    rfl
  | some j =>
    have hne : readsAll source.schema db table ρ steps ≠ [] := by
      intro he
      rw [← hreads, List.map_eq_nil_iff, ← hnone, hc] at he
      exact Option.some_ne_none j he
    rw [hc, Option.elim_some] at htruth
    rw [Truth.ofClauses?_eq_read hne, Option.map_some, htruth]

end Truth

def office : Source where
  schema := Schema.catalog ⟨[desk, ⟨"desks", "owner", "employees", "employee_id", "id"⟩]⟩
  count _ := .ok 0

def audit : List Step :=
  [.group .or [.group .and []],
    .restrict ⟨.compare "flag" .equal "true", .or⟩,
    .existing "desk" .and
      [.restrict ⟨.null "room", .and⟩, .group .or [.restrict ⟨.oneOf "floor" ["1", "2"], .or⟩]],
    .group .or [.restrict ⟨.null "note", .or⟩, .existing "desk.owner" .and []]]

theorem condition?_program_audit :
    (runAll office audit { table := "employees" }).failure? = none ∧
      (runAll office audit { table := "employees" }).draft.condition? ≠ none ∧
      ∀ b, (runAll office audit { table := "employees" }).draft.condition?.map
        (Junction.truth Database.flags fun _ _ ↦ some b) = some (.ofBool b) := by
  have hrun : (runAll office audit { table := "employees" }).failure? = none := by
    decide +kernel
  obtain ⟨hnone, htruth⟩ := condition?_program hrun
  refine ⟨hrun, ?_, fun b ↦ ?_⟩
  · rw [ne_eq, hnone]
    decide
  · rw [htruth]
    cases b <;> decide +kernel

end Step

end Listing
