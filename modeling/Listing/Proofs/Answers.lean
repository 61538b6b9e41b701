import Listing.Proofs.Database

namespace Listing.Sql

/-- What a database answers to a query: rows, or how many there are. -/
inductive Answer (α : Type)
  | rows (rows : List (Row α))
  | number (n : ℕ)

namespace Select

/-- What the offset and the limit of a query leave of its rows. -/
def cut {β : Type} (s : Select) (l : List β) : List β :=
  let later := l.drop (s.offset?.elim 0 UInt64.toNat)
  s.limit?.elim later fun n ↦ later.take n.toNat

def uncut (s : Select) : Select := { s with limit? := none, offset? := none }

variable {α : Type} (db : Database α) (ρ : Rows α) (s : Select)

/-- The rows of the table that the condition of a query holds of. -/
def matching : List (Row α) :=
  (db.rows s.table).filter fun row ↦ (s.truth db (Function.update ρ s.table row)).isYes

/-- The order of the rows is left open: it may be any, and so also the one that is asked for. -/
inductive Answers : Answer α → Prop
  | rows {arranged : List (Row α)} : s.projection = .rows → arranged.Perm (s.matching db ρ) →
      Answers (.rows (s.cut arranged))
  | number : s.projection = .rowCount → s.limit? = none → s.offset? = none →
      Answers (.number (s.matching db ρ).length)

variable {db ρ s}

theorem answers_rows {answer : Answer α} (hrows : s.projection = .rows) :
    s.Answers db ρ answer ↔
      ∃ arranged, arranged.Perm (s.matching db ρ) ∧ answer = .rows (s.cut arranged) := by
  constructor
  · intro h
    cases h with
    | rows _ harranged => exact ⟨_, harranged, rfl⟩
    | number hcount => rw [hrows] at hcount; cases hcount
  · rintro ⟨arranged, harranged, rfl⟩
    exact .rows hrows harranged

theorem answers_number {answer : Answer α} (hcount : s.projection = .rowCount)
    (hlimit : s.limit? = none) (hoffset : s.offset? = none) :
    s.Answers db ρ answer ↔ answer = .number (s.matching db ρ).length := by
  constructor
  · intro h
    cases h with
    | rows hrows => rw [hcount] at hrows; cases hrows
    | number => rfl
  · rintro rfl
    exact .number hcount hlimit hoffset

theorem cut_of_unbounded {β : Type} (hlimit : s.limit? = none) (hoffset : s.offset? = none)
    (l : List β) : s.cut l = l := by
  simp only [cut, hlimit, hoffset, Option.elim_none, List.drop_zero]

theorem answers_uncut {answer : Answer α} (hrows : s.projection = .rows) :
    s.uncut.Answers db ρ answer ↔
      ∃ arranged, arranged.Perm (s.matching db ρ) ∧ answer = .rows arranged := by
  have hall (l : List (Row α)) : s.uncut.cut l = l := cut_of_unbounded rfl rfl l
  rw [answers_rows (show s.uncut.projection = .rows from hrows)]
  simp only [hall]
  rfl

end Select

end Listing.Sql
