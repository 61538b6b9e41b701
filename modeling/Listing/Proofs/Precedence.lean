import Listing.Draft
import Listing.Proofs.Database

namespace Listing

open Sql

variable {α : Type} (db : Database α) (ρ : Rows α)

def Clause.read (c : Clause) : Connective × Truth := (c.connective, c.condition.truth db ρ)

namespace Draft

/-- What the clauses of a draft are of a row, from left to right. -/
def truth (d : Draft) : Truth := .read (d.clauses.map (Clause.read db ρ))

def runTruth (run : List Clause) : Truth := .all (run.map fun c ↦ c.condition.truth db ρ)

theorem truth_runJunction (run : List Clause) :
    (runJunction run).truth db ρ = runTruth db ρ run := by
  simp only [runJunction, Junction.truth, Truth.joined, runTruth, List.map_map,
    Function.comp_def, Junction.truth_toCondition]

theorem runTruth_nil : runTruth db ρ [] = ⊤ := rfl

theorem runTruth_cons (c : Clause) (run : List Clause) :
    runTruth db ρ (c :: run) = c.condition.truth db ρ ⊓ runTruth db ρ run := rfl

theorem runs_cons (c : Clause) (more : List Clause) : ∃ run later,
    runs (c :: more) = (c :: run) :: later ∧
    ∀ {α : Type} (db : Database α) (ρ : Rows α) (t : Truth),
      Truth.readFrom t (more.map (Clause.read db ρ)) =
        t ⊓ runTruth db ρ run ⊔ .any (later.map (runTruth db ρ)) := by
  induction more generalizing c with
  | nil =>
    refine ⟨[], [], rfl, fun db ρ t ↦ ?_⟩
    simp only [List.map_nil, Truth.readFrom, runTruth_nil, Truth.any_nil, inf_top_eq, sup_bot_eq]
  | cons d more ih =>
    obtain ⟨run, later, hruns, hread⟩ := ih d
    cases hd : d.connective with
    | and =>
      refine ⟨d :: run, later, ?_, fun db ρ t ↦ ?_⟩
      · simp only [runs, hd, hruns, List.modifyHead_cons]
      · simp only [List.map_cons, Clause.read, hd, Truth.readFrom]
        rw [hread, runTruth_cons, inf_assoc]
    | or =>
      refine ⟨[], (d :: run) :: later, ?_, fun db ρ t ↦ ?_⟩
      · simp only [runs, hd, hruns]
      · simp only [List.map_cons, Clause.read, hd, Truth.readFrom, Truth.any_cons]
        rw [hread, runTruth_cons, runTruth_nil, inf_top_eq]

theorem condition?_eq_none {d : Draft} : d.condition? = none ↔ d.clauses = [] := by
  unfold condition?
  cases d.clauses with
  | nil => exact iff_of_true rfl rfl
  | cons c more =>
    obtain ⟨run, later, hruns, -⟩ := runs_cons c more
    rw [hruns]
    cases later <;> exact iff_of_false (Option.some_ne_none _) (List.cons_ne_nil _ _)

theorem truth_runs (runs : List (List Clause)) :
    (Junction.mk .or (runs.map fun run ↦ (runJunction run).toCondition)).truth db ρ =
      .any (runs.map (runTruth db ρ)) := by
  have h (run : List Clause) : (runJunction run).toCondition.truth db ρ = runTruth db ρ run :=
    (Junction.truth_toCondition db ρ _).trans (truth_runJunction db ρ run)
  simp only [Junction.truth, Truth.joined, List.map_map, Function.comp_def, h]

theorem truth_condition? (d : Draft) :
    d.condition?.elim ⊤ (Junction.truth db ρ) = d.truth db ρ := by
  unfold condition? truth
  cases d.clauses with
  | nil => rfl
  | cons c more =>
    obtain ⟨run, later, hruns, hread⟩ := runs_cons c more
    have hc : Truth.read ((c :: more).map (Clause.read db ρ)) =
        runTruth db ρ (c :: run) ⊔ .any (later.map (runTruth db ρ)) :=
      hread db ρ _
    rw [hruns, hc]
    cases later with
    | nil => exact (truth_runJunction db ρ _).trans (sup_bot_eq _).symm
    | cons next later => exact truth_runs db ρ _

theorem truth_rowsSelect (d : Draft) : d.rowsSelect.truth db ρ = d.truth db ρ :=
  truth_condition? db ρ d

theorem truth_countSelect (d : Draft) : d.countSelect.truth db ρ = d.truth db ρ :=
  truth_condition? db ρ d

theorem select_page (d : Draft) (limit number : UInt64) : ∃ limit? offset?,
    (d.page limit number).select = { d.rowsSelect with limit?, offset? } := by
  simp only [page]
  split
  · exact ⟨_, _, rfl⟩
  · exact ⟨none, none, rfl⟩

theorem truth_page (d : Draft) (limit number : UInt64) :
    (d.page limit number).select.truth db ρ = d.truth db ρ ∧
      (d.page limit number).count.truth db ρ = d.truth db ρ := by
  obtain ⟨limit?, offset?, hselect⟩ := d.select_page limit number
  refine ⟨?_, truth_countSelect db ρ d⟩
  rw [← truth_rowsSelect, hselect]
  rfl

end Draft

end Listing
