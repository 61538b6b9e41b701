import Listing.Request
import Mathlib.Data.Finset.Lattice.Fold

namespace Listing.Sql

/-- What a condition is of a row. It is unknown where a content is missing. -/
inductive Truth
  | no
  | unknown
  | yes
  deriving DecidableEq

namespace Truth

def rank : Truth → ℕ
  | no => 0
  | unknown => 1
  | yes => 2

theorem rank_injective : Function.Injective rank := by
  intro s t h
  cases s <;> cases t <;> simp_all [rank]

/-- Conjunction is the minimum of this order and disjunction the maximum. -/
instance : LinearOrder Truth := LinearOrder.lift' rank rank_injective

theorem le_iff_rank {s t : Truth} : s ≤ t ↔ s.rank ≤ t.rank := Iff.rfl

instance : BoundedOrder Truth where
  top := yes
  le_top t := by cases t <;> simp [le_iff_rank, rank]
  bot := no
  bot_le t := by cases t <;> simp [le_iff_rank, rank]

def ofBool (b : Bool) : Truth := bif b then ⊤ else ⊥

@[simp] theorem ofBool_eq_top {b : Bool} : ofBool b = ⊤ ↔ b = true := by
  cases b
  · exact iff_of_false (by decide) Bool.false_ne_true
  · exact iff_of_true rfl rfl

theorem ofBool_le {b : Bool} {t : Truth} : ofBool b ≤ t ↔ (b = true → t = ⊤) := by
  cases b
  · exact iff_of_true bot_le fun h ↦ absurd h Bool.false_ne_true
  · exact ⟨fun h _ ↦ top_le_iff.mp h, fun h ↦ top_le_iff.mpr (h rfl)⟩

/-- Only what certainly holds selects a row. -/
def isYes : Truth → Bool
  | yes => true
  | _ => false

@[simp] theorem isYes_iff {t : Truth} : t.isYes = true ↔ t = ⊤ := by
  cases t
  · exact iff_of_false Bool.false_ne_true (by decide)
  · exact iff_of_false Bool.false_ne_true (by decide)
  · exact iff_of_true rfl rfl

def all (ts : List Truth) : Truth := ts.foldr (· ⊓ ·) ⊤

def any (ts : List Truth) : Truth := ts.foldr (· ⊔ ·) ⊥

@[simp] theorem all_nil : all [] = ⊤ := rfl

@[simp] theorem all_cons (t : Truth) (ts : List Truth) : all (t :: ts) = t ⊓ all ts := rfl

@[simp] theorem any_nil : any [] = ⊥ := rfl

@[simp] theorem any_cons (t : Truth) (ts : List Truth) : any (t :: ts) = t ⊔ any ts := rfl

theorem all_append (ts us : List Truth) : all (ts ++ us) = all ts ⊓ all us := by
  induction ts with
  | nil => exact (top_inf_eq _).symm
  | cons t ts ih => rw [List.cons_append, all_cons, all_cons, ih, inf_assoc]

theorem le_all {t : Truth} {ts : List Truth} : t ≤ all ts ↔ ∀ s ∈ ts, t ≤ s := by
  induction ts with
  | nil => exact iff_of_true le_top fun s hs ↦ absurd hs List.not_mem_nil
  | cons s ts ih => rw [all_cons, le_inf_iff, ih, List.forall_mem_cons]

theorem all_anti {ts us : List Truth} (h : ts ⊆ us) : all us ≤ all ts :=
  le_all.mpr fun _ ht ↦ le_all.mp le_rfl _ (h ht)

theorem all_eq_inf {α : Type} [DecidableEq α] (f : α → Truth) (l : List α) :
    all (l.map f) = l.toFinset.inf f := by
  induction l with
  | nil => rfl
  | cons a l ih => simp only [List.map_cons, all_cons, ih, List.toFinset_cons, Finset.inf_insert]

theorem any_eq_sup {α : Type} [DecidableEq α] (f : α → Truth) (l : List α) :
    any (l.map f) = l.toFinset.sup f := by
  induction l with
  | nil => rfl
  | cons a l ih => simp only [List.map_cons, any_cons, ih, List.toFinset_cons, Finset.sup_insert]

def joined : Connective → List Truth → Truth
  | .and => all
  | .or => any

@[simp] theorem joined_singleton (c : Connective) (t : Truth) : joined c [t] = t := by
  cases c
  · exact inf_top_eq t
  · exact sup_bot_eq t

/-- Clauses behind a run of conjoined ones: a disjoined clause ends the run. -/
def readFrom (run : Truth) : List (Connective × Truth) → Truth
  | [] => run
  | (.and, t) :: more => readFrom (run ⊓ t) more
  | (.or, t) :: more => run ⊔ readFrom t more

/-- Clauses from left to right, where conjunction binds tighter than disjunction. How the first
is joined does not count, and no clauses at all hold of every row. -/
def read : List (Connective × Truth) → Truth
  | [] => ⊤
  | (_, t) :: more => readFrom t more

@[simp] theorem read_singleton (c : Connective) (t : Truth) : read [(c, t)] = t := rfl

theorem readFrom_and (run : Truth) (ts : List Truth) :
    readFrom run (ts.map (Connective.and, ·)) = run ⊓ all ts := by
  induction ts generalizing run with
  | nil => exact (inf_top_eq run).symm
  | cons t ts ih => simp only [List.map_cons, readFrom, ih, all_cons, inf_assoc]

theorem readFrom_or (run : Truth) (ts : List Truth) :
    readFrom run (ts.map (Connective.or, ·)) = run ⊔ any ts := by
  induction ts generalizing run with
  | nil => exact (sup_bot_eq run).symm
  | cons t ts ih => simp only [List.map_cons, readFrom, ih, any_cons]

theorem read_and (ts : List Truth) : read (ts.map (Connective.and, ·)) = all ts := by
  cases ts with
  | nil => rfl
  | cons t ts => exact readFrom_and t ts

theorem read_or {ts : List Truth} (h : ts ≠ []) : read (ts.map (Connective.or, ·)) = any ts := by
  cases ts with
  | nil => exact absurd rfl h
  | cons t ts => exact readFrom_or t ts

theorem read_joined {c : Connective} {ts : List Truth} (h : ts ≠ []) :
    read (ts.map (c, ·)) = joined c ts := by
  cases c with
  | and => exact read_and ts
  | or => exact read_or h

end Truth

end Listing.Sql
