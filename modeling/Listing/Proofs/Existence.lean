import Listing.Proofs.Precedence

namespace Listing

open Sql

variable {α : Type} (db : Database α)

def Relation.joins (hop : Relation) : Atom :=
  .joins ⟨hop.target, hop.targetColumn⟩ ⟨hop.owner, hop.ownerColumn⟩

namespace Sql.Database

/-- One existence inside the other for the hops in turn, and `inner` behind the last. -/
def reaches (ρ : Rows α) : List Relation → (Rows α → Truth) → Truth
  | [], inner => inner ρ
  | hop :: more, inner =>
    .ofBool <| (db.rows hop.target).any fun row ↦
      (hop.joins.truth db (Function.update ρ hop.target row) ⊓
        reaches (Function.update ρ hop.target row) more inner).isYes

theorem reaches_cons (ρ : Rows α) (hop : Relation) (more : List Relation)
    (inner : Rows α → Truth) : db.reaches ρ (hop :: more) inner = ⊤ ↔
      ∃ row ∈ db.rows hop.target, hop.joins.truth db (Function.update ρ hop.target row) = ⊤ ∧
        db.reaches (Function.update ρ hop.target row) more inner = ⊤ := by
  simp only [reaches, Truth.ofBool_eq_top, List.any_eq_true, Truth.isYes_iff, inf_eq_top_iff]

theorem reaches_mono {ρ : Rows α} {hops : List Relation} {inner inner' : Rows α → Truth}
    (h : ∀ ρ, inner ρ ≤ inner' ρ) : db.reaches ρ hops inner ≤ db.reaches ρ hops inner' := by
  induction hops generalizing ρ with
  | nil => exact h ρ
  | cons hop more ih =>
    refine Truth.ofBool_le.mpr fun hany ↦ ?_
    have hreaches : db.reaches ρ (hop :: more) inner = ⊤ := Truth.ofBool_eq_top.mpr hany
    rw [reaches_cons] at hreaches ⊢
    obtain ⟨row, hrow, hjoin, hmore⟩ := hreaches
    exact ⟨row, hrow, hjoin, top_le_iff.mp (hmore ▸ ih)⟩

end Sql.Database

namespace Draft

theorem truth_nested (ρ : Rows α) (hops : List Relation) (inner : Option Condition) :
    (nested hops inner).elim ⊤ (Condition.truth db ρ) =
      db.reaches ρ hops fun ρ ↦ inner.elim ⊤ (Condition.truth db ρ) := by
  induction hops generalizing ρ with
  | nil => rfl
  | cons hop more ih =>
    have hmembers (ρ : Rows α) : (Junction.mk .and (.atom hop.joins ::
        (nested more inner).toList)).truth db ρ = hop.joins.truth db ρ ⊓
          db.reaches ρ more fun ρ ↦ inner.elim ⊤ (Condition.truth db ρ) := by
      rw [← ih]
      cases nested more inner with
      | none => rfl
      | some c => simp only [Junction.truth, Truth.joined, Option.toList_some, List.map_cons,
          List.map_nil, Truth.all_cons, Truth.all_nil, inf_top_eq, Option.elim_some,
          Condition.truth]
    simp only [nested, Option.elim_some, Condition.truth_existing, Database.reaches]
    exact congrArg Truth.ofBool (congrArg _ (funext fun row ↦ congrArg _ (hmembers _)))

theorem truth_existence (ρ : Rows α) (hops : List Relation) (inner : Option Junction) :
    (existence hops inner).truth db ρ =
      db.reaches ρ hops fun ρ ↦ inner.elim ⊤ (Junction.truth db ρ) := by
  have h := truth_nested db ρ hops (inner.map Junction.toCondition)
  have hinner (ρ : Rows α) : (inner.map Junction.toCondition).elim ⊤ (Condition.truth db ρ) =
      inner.elim ⊤ (Junction.truth db ρ) := by
    cases inner with
    | none => rfl
    | some j => exact Junction.truth_toCondition db ρ j
  simp only [hinner] at h
  rw [← h]
  cases hn : nested hops (inner.map Junction.toCondition) with
  | none => simp only [existence, hn]; rfl
  | some c => simp only [existence, hn]; exact Junction.truth_single db ρ c

end Draft

end Listing
