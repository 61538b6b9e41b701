import Listing.Draft.Step
import Listing.Proofs.Database
import Listing.Proofs.Readings
import Listing.Proofs.Segments

namespace Listing

open Sql

namespace Sql

/-- The values that a clause is bound with, in the order of its text. -/
def Junction.values (j : Junction) : List Value :=
  (Token.piecesAll j.tokens).filterMap Piece.value?

theorem Junction.values_single (a : Atom) :
    (single (.atom a)).values = a.pieces.filterMap Piece.value? :=
  congrArg (List.filterMap Piece.value?) (List.append_nil a.pieces)

theorem values_commas (vs : List Value) :
    (commas (vs.map ([.param ·]))).filterMap Piece.value? = vs := by
  induction vs with
  | nil => rfl
  | cons v more ih =>
    cases more with
    | nil => rfl
    | cons next more =>
      simp only [commas, List.map_cons] at ih ⊢
      rw [List.intercalate_cons_cons, List.filterMap_append, ih]
      rfl

theorem Column.values_listed (column : Column) (keyword : String) (vs : List Value) :
    (column.pieces ++ Piece.plain keyword :: commas (vs.map ([.param ·])) ++
      [Piece.plain ")"]).filterMap Piece.value? = vs := by
  rw [List.filterMap_append, List.filterMap_append, List.filterMap_cons_none rfl, values_commas]
  exact List.append_nil vs

end Sql

namespace Connective

/-- The code that asks for any member of a list, or for none. -/
def listCode : Connective → String
  | .or => "in"
  | .and => "nin"

/-- The code that asks for one member, or for any other value. -/
def memberCode : Connective → String
  | .or => "eq"
  | .and => "ne"

def listTest : Connective → String → List String → Test
  | .or => .oneOf
  | .and => .noneOf

def comparison : Connective → Comparison
  | .or => .equal
  | .and => .unequal

def listed : Connective → Column → List Value → Atom
  | .or => .oneOf
  | .and => .noneOf

theorem truth_listed {α : Type} (db : Database α) (ρ : Rows α) (c : Connective) (column : Column)
    (vs : List Value) : (c.listed column vs).truth db ρ =
      .joined c (vs.map fun v ↦ (Atom.compare column c.comparison v).truth db ρ) := by
  cases c <;> rfl

theorem values_listed (c : Connective) (column : Column) {vs : List Value} (h : vs ≠ []) :
    (c.listed column vs).pieces.filterMap Piece.value? = vs := by
  obtain ⟨v, more, rfl⟩ := List.exists_cons_of_ne_nil h
  cases c
  · exact column.values_listed " NOT IN (" (v :: more)
  · exact column.values_listed " IN (" (v :: more)

end Connective

namespace Filter

def asking (f : Filter) (operator value : String) : Filter := { f with operator, value }

/-- The filter adds the clause to the draft and does nothing else. -/
def Adds (separator : Char) (source : Source) (d : Draft) (f : Filter) (j : Junction) : Prop :=
  (Script.filterStep separator f).run source d =
    { draft := { d with clauses := d.clauses ++ [⟨f.connective, j⟩] } }

variable (separator : Char) (source : Source) (d : Draft) (f : Filter)

theorem predicate_list (c : Connective) : (f.asking c.listCode f.value).predicate separator =
    .ok ⟨c.listTest f.field (Text.parts separator f.value), f.connective⟩ := by
  cases c <;> rfl

theorem predicate_member (c : Connective) (part : String) :
    (f.asking c.memberCode part).predicate separator =
      .ok ⟨.compare f.field c.comparison part, f.connective⟩ := by
  cases c <;> rfl

def memberClause (c : Connective) (part : String) : Junction :=
  .single (.atom (.compare (d.column f.field) c.comparison (.ofLiteral part)))

theorem values_memberClause (c : Connective) (part : String) :
    (f.memberClause d c part).values = [.ofLiteral part] :=
  Junction.values_single _

theorem truth_memberClause {α : Type} (db : Database α) (ρ : Rows α) (c : Connective)
    (part : String) : (f.memberClause d c part).truth db ρ =
      (Atom.compare (d.column f.field) c.comparison (.ofLiteral part)).truth db ρ :=
  Junction.truth_single db ρ _

theorem adds_of_predicate {f : Filter} {p : Predicate} {j : Junction}
    (hp : f.predicate separator = .ok p) (h : d.tested source.schema p.test = .ok j) :
    f.Adds separator source d j := by
  rw [Adds, Script.filterStep, hp, Step.run, Draft.restrict, h, (predicate_eq_ok.mp hp).2]
  rfl

theorem adds_list (c : Connective) : (f.asking c.listCode f.value).Adds separator source d
    (.single (.atom (c.listed (d.column f.field)
      ((Text.parts separator f.value).map .ofLiteral)))) := by
  apply adds_of_predicate separator source d (f.predicate_list separator c)
  cases c <;> rfl

theorem adds_member (c : Connective) (part : String) :
    (f.asking c.memberCode part).Adds separator source d (f.memberClause d c part) := by
  apply adds_of_predicate separator source d (f.predicate_member separator c part)
  cases c <;> rfl

/-- A filter on a list and filters on its parts, each compiled for the field, with clauses that
bind each part in the same way and say the same of every row. -/
structure Membership (c : Connective) (parts : List String) (j : Junction) (js : List Junction) :
    Prop where
  listPredicate : (f.asking c.listCode f.value).predicate separator =
    .ok ⟨c.listTest f.field parts, f.connective⟩
  memberPredicates : ∀ part ∈ parts, (f.asking c.memberCode part).predicate separator =
    .ok ⟨.compare f.field c.comparison part, f.connective⟩
  list : (f.asking c.listCode f.value).Adds separator source d j
  members : List.Forall₂ (fun part j ↦ (f.asking c.memberCode part).Adds separator source d j)
    parts js
  values : j.values = parts.map .ofLiteral
  memberValues : js.map Junction.values = parts.map fun part ↦ [.ofLiteral part]
  truth : ∀ {α : Type} (db : Database α) (ρ : Rows α),
    j.truth db ρ = .joined c (js.map (Junction.truth db ρ))

/-- A filter on a list takes its value apart at the separators, and its clause is of a row what
the filters on the parts are: any of them for members, and all of them for no members. -/
theorem membership : (Text.parts separator f.value ≠ [] ∧
      (∀ part ∈ Text.parts separator f.value, separator ∉ part.toList) ∧
      (String.singleton separator).intercalate (Text.parts separator f.value) = f.value) ∧
    ∀ c, ∃ j js, f.Membership separator source d c (Text.parts separator f.value) j js := by
  have hparts := Text.parts_ne_nil separator f.value
  refine ⟨⟨hparts, fun _ ↦ Text.not_mem_of_mem_parts,
    Text.singleton_intercalate_parts separator f.value⟩, ?_⟩
  intro c
  refine ⟨_, (Text.parts separator f.value).map (f.memberClause d c),
    f.predicate_list separator c, fun part _ ↦ f.predicate_member separator c part,
    f.adds_list separator source d c, ?members, ?values, ?memberValues, ?truth⟩
  case members =>
    rw [List.forall₂_map_right_iff]
    apply List.forall₂_same.mpr
    intro part _
    exact f.adds_member separator source d c part
  case values =>
    have hliterals : (Text.parts separator f.value).map Value.ofLiteral ≠ [] := by
      rwa [ne_eq, List.map_eq_nil_iff]
    rw [Junction.values_single, c.values_listed _ hliterals]
  case memberValues =>
    rw [List.map_map]
    exact List.map_congr_left fun part _ ↦ f.values_memberClause d c part
  case truth =>
    intro α db ρ
    rw [Junction.truth_single, Condition.truth, c.truth_listed, List.map_map, List.map_map]
    simp only [Function.comp_def, truth_memberClause]

end Filter

end Listing
