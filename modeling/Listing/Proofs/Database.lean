import Listing.Page
import Listing.Proofs.Truth

namespace Listing.Sql

/-- What a row holds in its columns. `none` is a missing content. -/
abbrev Row (α : Type) := String → Option α

/-- The rows at hand, each under the name of its table. Of two tables of one name the inner one
has it. -/
abbrev Rows (α : Type) := String → Row α

/-- The rows of all tables, and how contents compare with each other and with values. -/
structure Database (α : Type) where
  rows : String → List (Row α)
  same : α → α → Bool
  holds : Comparison → α → Value → Bool

def Column.content {α : Type} (c : Column) (ρ : Rows α) : Option α := ρ c.table c.name

namespace Database

variable {α : Type} (db : Database α)

/-- A missing content compares with nothing. -/
def compare (op : Comparison) (content : Option α) (v : Value) : Truth :=
  content.elim .unknown fun a ↦ .ofBool (db.holds op a v)

def equal : Option α → Option α → Truth
  | some a, some b => .ofBool (db.same a b)
  | _, _ => .unknown

end Database

variable {α : Type} (db : Database α)

def Atom.truth (ρ : Rows α) : Atom → Truth
  | .compare column op v => db.compare op (column.content ρ) v
  | .oneOf column vs => .any (vs.map (db.compare .equal (column.content ρ)))
  | .noneOf column vs => .all (vs.map (db.compare .unequal (column.content ρ)))
  | .null column => .ofBool (column.content ρ).isNone
  | .notNull column => .ofBool (column.content ρ).isSome
  | .joins left right => db.equal (left.content ρ) (right.content ρ)

mutual

/-- A column is that of the innermost table of its name. -/
def Condition.truth (ρ : Rows α) : Condition → Truth
  | .atom a => a.truth db ρ
  | .existing table c members =>
    .ofBool <| (db.rows table).any fun row ↦
      (Truth.joined c (Condition.truths (Function.update ρ table row) members)).isYes
  | .joined c members => Truth.joined c (Condition.truths ρ members)

def Condition.truths (ρ : Rows α) : List Condition → List Truth
  | [] => []
  | c :: more => c.truth ρ :: Condition.truths ρ more

end

theorem Condition.truths_eq_map (ρ : Rows α) (members : List Condition) :
    Condition.truths db ρ members = members.map (Condition.truth db ρ) := by
  induction members with
  | nil => rfl
  | cons c more ih => simp only [Condition.truths, List.map_cons, ih]

def Junction.truth (ρ : Rows α) (j : Junction) : Truth :=
  .joined j.connective (j.members.map (Condition.truth db ρ))

/-- What the condition of a query is of a row. Without a condition all rows are meant. -/
def Select.truth (ρ : Rows α) (s : Select) : Truth := s.condition?.elim ⊤ (Junction.truth db ρ)

theorem Junction.truth_single (ρ : Rows α) (c : Condition) :
    (Junction.single c).truth db ρ = c.truth db ρ := Truth.joined_singleton _ _

theorem Junction.truth_toCondition (ρ : Rows α) (j : Junction) :
    j.toCondition.truth db ρ = j.truth db ρ := by
  obtain ⟨connective, members⟩ := j
  match members with
  | [c] => exact (Truth.joined_singleton _ _).symm
  | [] => rfl
  | c :: d :: more => simp only [toCondition, Condition.truth, Condition.truths_eq_map, truth]

theorem Condition.truth_existing (ρ : Rows α) (table : String) (c : Connective)
    (members : List Condition) :
    (Condition.existing table c members).truth db ρ =
      .ofBool ((db.rows table).any fun row ↦
        ((Junction.mk c members).truth db (Function.update ρ table row)).isYes) := by
  simp only [Condition.truth, Condition.truths_eq_map, Junction.truth]

def Atom.columns : Atom → List Column
  | .compare column _ _ | .oneOf column _ | .noneOf column _ | .null column | .notNull column =>
    [column]
  | .joins left right => [left, right]

mutual

def Condition.tables : Condition → List String
  | .atom a => a.columns.map (·.table)
  | .existing table _ members => (Condition.tablesAll members).filter (· ≠ table)
  | .joined _ members => Condition.tablesAll members

def Condition.tablesAll : List Condition → List String
  | [] => []
  | c :: more => c.tables ++ Condition.tablesAll more

end

def Junction.tables (j : Junction) : List String := Condition.tablesAll j.members

theorem Atom.truth_congr {ρ ρ' : Rows α} {a : Atom}
    (h : ∀ c ∈ a.columns, ρ c.table = ρ' c.table) : a.truth db ρ = a.truth db ρ' := by
  cases a <;> simp_all [Atom.columns, Atom.truth, Column.content]

mutual

theorem Condition.truth_congr {ρ ρ' : Rows α} : ∀ (c : Condition),
    (∀ table ∈ c.tables, ρ table = ρ' table) → c.truth db ρ = c.truth db ρ'
  | .atom a, h => by
    refine Atom.truth_congr db fun c hc ↦ h c.table ?_
    exact List.mem_map_of_mem hc
  | .existing table c members, h => by
    have hrow (row : Row α) : Condition.truths db (Function.update ρ table row) members =
        Condition.truths db (Function.update ρ' table row) members := by
      refine Condition.truths_congr members fun t ht ↦ ?_
      by_cases he : t = table
      · subst he
        simp only [Function.update_self]
      · simp only [Function.update_of_ne he]
        exact h t (List.mem_filter.mpr ⟨ht, by simpa using he⟩)
    simp only [Condition.truth, hrow]
  | .joined c members, h => by
    simp only [Condition.truth, Condition.truths_congr members h]

theorem Condition.truths_congr {ρ ρ' : Rows α} : ∀ (members : List Condition),
    (∀ table ∈ Condition.tablesAll members, ρ table = ρ' table) →
      Condition.truths db ρ members = Condition.truths db ρ' members
  | [], _ => rfl
  | c :: more, h => by
    have hc : c.truth db ρ = c.truth db ρ' :=
      Condition.truth_congr c fun t ht ↦ h t (List.mem_append_left _ ht)
    have hmore : Condition.truths db ρ more = Condition.truths db ρ' more :=
      Condition.truths_congr more fun t ht ↦ h t (List.mem_append_right _ ht)
    simp only [Condition.truths, hc, hmore]

end

theorem Junction.truth_congr {ρ ρ' : Rows α} {j : Junction}
    (h : ∀ table ∈ j.tables, ρ table = ρ' table) : j.truth db ρ = j.truth db ρ' := by
  simp only [truth, ← Condition.truths_eq_map, Condition.truths_congr db j.members h]

end Listing.Sql
