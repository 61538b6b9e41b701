import Listing.Page
import Listing.Proofs.Steps

namespace Listing

namespace Sql

def Atom.blank : Atom → Atom
  | .compare column op _ => .compare column op (.text "")
  | .oneOf column vs => .oneOf column (vs.map fun _ ↦ .text "")
  | .noneOf column vs => .noneOf column (vs.map fun _ ↦ .text "")
  | a => a

mutual

def Condition.blank : Condition → Condition
  | .atom a => .atom a.blank
  | .existing table c members => .existing table c (Condition.blankAll members)
  | .joined c members => .joined c (Condition.blankAll members)

def Condition.blankAll : List Condition → List Condition
  | [] => []
  | c :: more => c.blank :: Condition.blankAll more

end

theorem Condition.blankAll_eq (members : List Condition) :
    blankAll members = members.map blank := by
  induction members with
  | nil => rfl
  | cons c more ih => rw [blankAll, ih, List.map_cons]

def Junction.blank (j : Junction) : Junction := ⟨j.connective, j.members.map Condition.blank⟩

def Select.blank (s : Select) : Select := { s with condition? := s.condition?.map Junction.blank }

theorem Junction.blank_toCondition (j : Junction) : j.toCondition.blank = j.blank.toCondition := by
  obtain ⟨connective, members⟩ := j
  match members with
  | [] => rfl
  | [c] => rfl
  | c :: d :: more =>
    simp only [toCondition, Condition.blank, Condition.blankAll_eq, blank, List.map_cons]

mutual

def Token.blank : Token → Token
  | .test a => .test a.blank
  | .existing table body => .existing table (Token.blankAll body)
  | t => t

def Token.blankAll : List Token → List Token
  | [] => []
  | t :: more => t.blank :: Token.blankAll more

end

theorem Token.blankAll_eq (ts : List Token) : blankAll ts = ts.map blank := by
  induction ts with
  | nil => rfl
  | cons t more ih => rw [blankAll, ih, List.map_cons]

namespace Written

def blank (w : Written) : Written := ⟨w.tokens.map Token.blank, w.outer?⟩

theorem blank_join (c : Connective) (l r : Written) :
    (join c l r).blank = join c l.blank r.blank := by
  have henclosed (w : Written) : w.enclosed.map Token.blank = w.blank.enclosed := by
    simp only [enclosed, blank, List.map_append, List.map_cons, List.map_nil, Token.blank]
  have hif (b : Bool) (w : Written) : (if b then w.enclosed else w.tokens).map Token.blank =
      if b then w.blank.enclosed else w.blank.tokens := by
    cases b with
    | false => rfl
    | true => exact henclosed w
  simp only [join, blank, List.map_append, List.map_cons, Token.blank]
  rw [hif, hif]
  rfl

theorem blank_joinAll (c : Connective) (ws : List Written) :
    (joinAll c ws).blank = joinAll c (ws.map blank) := by
  cases ws with
  | nil => rfl
  | cons w more =>
    simp only [joinAll, List.map_cons]
    induction more generalizing w with
    | nil => rfl
    | cons next more ih => rw [List.foldl_cons, ih, blank_join, List.map_cons, List.foldl_cons]

end Written

mutual

theorem Condition.written_blank : ∀ c : Condition, c.blank.written = c.written.blank
  | .atom _ => rfl
  | .existing table c members => by
    have ih := Condition.writtenAll_blank members
    simp only [Condition.blank, Condition.written, ih, ← Written.blank_joinAll, Written.blank,
      List.map_cons, List.map_nil, Token.blank, Token.blankAll_eq]
  | .joined c members => by
    rw [Condition.blank, Condition.written, Condition.written, Written.blank_joinAll,
      Condition.writtenAll_blank members]

theorem Condition.writtenAll_blank : ∀ members : List Condition,
    Condition.writtenAll (Condition.blankAll members) =
      (Condition.writtenAll members).map Written.blank
  | [] => rfl
  | c :: more => by
    rw [Condition.blankAll, Condition.writtenAll, Condition.writtenAll, List.map_cons,
      Condition.written_blank c, Condition.writtenAll_blank more]

end

theorem Junction.tokens_blank (j : Junction) : j.blank.tokens = j.tokens.map Token.blank := by
  rw [tokens, blank, ← Condition.blankAll_eq, Condition.writtenAll_blank, ← Written.blank_joinAll]
  rfl

def Piece.blank : Piece → Piece
  | .param _ => .param (.text "")
  | p => p

abbrev blanks (ps : List Piece) : List Piece := ps.map Piece.blank

theorem blanks_commas (l : List (List Piece)) : blanks (commas l) = commas (l.map blanks) := by
  induction l with
  | nil => rfl
  | cons ps more ih =>
    cases more with
    | nil => simp only [commas, List.intercalate_singleton, List.map_singleton]
    | cons qs more =>
      simp only [commas, List.map_cons] at ih ⊢
      rw [List.intercalate_cons_cons, List.intercalate_cons_cons, blanks, List.map_append,
        List.map_append, ← ih]
      rfl

theorem Atom.blanks_pieces (a : Atom) : blanks a.blank.pieces = blanks a.pieces := by
  have hlist (vs : List Value) : blanks (commas ((vs.map fun _ ↦ Value.text "").map ([.param ·]))) =
      blanks (commas (vs.map ([.param ·]))) := by
    rw [blanks_commas, blanks_commas, List.map_map, List.map_map, List.map_map]
    rfl
  cases a with
  | oneOf column vs =>
    cases vs with
    | nil => rfl
    | cons v more =>
      have h := hlist (v :: more)
      simp only [blanks, List.map_cons, blank, pieces, List.map_append] at h ⊢
      rw [h]
  | noneOf column vs =>
    cases vs with
    | nil => rfl
    | cons v more =>
      have h := hlist (v :: more)
      simp only [blanks, List.map_cons, blank, pieces, List.map_append] at h ⊢
      rw [h]
  | compare column op v =>
    simp only [blanks, blank, pieces, List.map_append, List.map_cons, Piece.blank]
  | null column => rfl
  | notNull column => rfl
  | joins left right => rfl

mutual

theorem Token.blanks_pieces : ∀ t : Token, blanks t.blank.pieces = blanks t.pieces
  | .test a => a.blanks_pieces
  | .existing table body => by
    have ih := Token.blanks_piecesAll body
    simp only [blanks, Token.blank, Token.pieces, List.map_append] at ih ⊢
    rw [ih]
  | .connective .and => rfl
  | .connective .or => rfl
  | .opening => rfl
  | .closing => rfl

theorem Token.blanks_piecesAll : ∀ ts : List Token,
    blanks (Token.piecesAll (Token.blankAll ts)) = blanks (Token.piecesAll ts)
  | [] => rfl
  | t :: more => by
    have h := Token.blanks_pieces t
    have ih := Token.blanks_piecesAll more
    simp only [blanks, Token.blankAll, Token.piecesAll, List.map_append] at h ih ⊢
    rw [h, ih]

end

/-- The text of a statement, and how many values go with it. -/
def Statement.shape (s : Statement) : String × ℕ := (s.sql, s.values.length)

namespace Select

theorem blanks_pieces (s : Select) : blanks s.blank.pieces = blanks s.pieces := by
  have hcondition : blanks (conditionPieces s.blank.condition?) =
      blanks (conditionPieces s.condition?) := by
    simp only [blank]
    cases s.condition? with
    | none => rfl
    | some j =>
      have h := Token.blanks_piecesAll j.tokens
      rw [Token.blankAll_eq, ← Junction.tokens_blank] at h
      simp only [blanks, conditionPieces, Option.map_some, List.map_cons] at h ⊢
      rw [h]
  simp only [blanks] at hcondition ⊢
  simp only [pieces, List.map_append, List.map_cons, hcondition]
  rfl

theorem placed_blanks (d : Dialect) (n : ℕ) (ps : List Piece) :
    d.placed n (blanks ps) = d.placed n ps := by
  induction ps generalizing n with
  | nil => rfl
  | cons p more ih =>
    simp only [blanks] at ih
    cases p <;> simp only [blanks, List.map_cons, Piece.blank, Dialect.placed, ih]

theorem length_values_blanks (ps : List Piece) :
    ((blanks ps).filterMap Piece.value?).length = (ps.filterMap Piece.value?).length := by
  induction ps with
  | nil => rfl
  | cons p more ih =>
    cases p with
    | param v => exact congrArg Nat.succ ih
    | plain s => exact ih
    | name s => exact ih

theorem shape_blank (s : Select) (d : Dialect) :
    (s.blank.statement d).shape = (s.statement d).shape := by
  have hpieces := s.blanks_pieces
  have hplaced : d.placed 0 s.blank.pieces = d.placed 0 s.pieces := by
    rw [← placed_blanks, hpieces, placed_blanks]
  have hvalues : (s.blank.pieces.filterMap Piece.value?).length =
      (s.pieces.filterMap Piece.value?).length := by
    rw [← length_values_blanks, hpieces, length_values_blanks]
  simp only [Statement.shape, statement, hplaced, hvalues]

end Select

end Sql

open Sql

def Clause.blank (c : Clause) : Clause := ⟨c.connective, c.condition.blank⟩

def Load.blank (load : Load) : Load := { load with select := load.select.blank }

namespace Draft

def blank (d : Draft) : Draft :=
  { d with clauses := d.clauses.map Clause.blank, loads := d.loads.map Load.blank }

theorem runs_blank (clauses : List Clause) :
    runs (clauses.map Clause.blank) = (runs clauses).map (List.map Clause.blank) := by
  induction clauses with
  | nil => rfl
  | cons c more ih =>
    cases more with
    | nil => rfl
    | cons d more =>
      obtain ⟨run, later, hruns, -⟩ := runs_cons d more
      rw [List.map_cons, hruns, List.map_cons] at ih
      have hconnective : d.blank.connective = d.connective := rfl
      cases hd : d.connective with
      | and => simp only [List.map_cons, runs, hconnective, hd, ih, hruns, List.modifyHead_cons]
      | or => simp only [List.map_cons, runs, hconnective, hd, ih, hruns, List.map_nil]

theorem runJunction_blank (run : List Clause) :
    runJunction (run.map Clause.blank) = (runJunction run).blank := by
  simp only [runJunction, Junction.blank, List.map_map, Function.comp_def, Clause.blank,
    Junction.blank_toCondition]

theorem condition?_blank (d : Draft) : d.blank.condition? = d.condition?.map Junction.blank := by
  simp only [condition?, blank, runs_blank]
  cases runs d.clauses with
  | nil => rfl
  | cons run later =>
    cases later with
    | nil => exact congrArg some (runJunction_blank run)
    | cons next later =>
      simp only [List.map_cons, Option.map_some, Junction.blank, Junction.blank_toCondition,
        runJunction_blank, List.map_map, Function.comp_def]

theorem rowsSelect_blank (d : Draft) : d.blank.rowsSelect = d.rowsSelect.blank := by
  simp only [rowsSelect, condition?_blank, Select.blank]
  rfl

theorem countSelect_blank (d : Draft) : d.blank.countSelect = d.countSelect.blank := by
  simp only [countSelect, condition?_blank, Select.blank]
  rfl

theorem push_blank (d : Draft) (c : Connective) (j : Junction) :
    (d.push c j).blank = d.blank.push c j.blank := by
  simp only [push, blank, List.map_append, List.map_singleton, Clause.blank]

theorem pushGroup_blank (d : Draft) (c : Connective) (inner : Draft) :
    (d.pushGroup c inner).blank = d.blank.pushGroup c inner.blank := by
  simp only [pushGroup, condition?_blank]
  cases inner.condition? with
  | none => rfl
  | some j => exact push_blank d c j

theorem nested_blank (hops : List Relation) (inner : Option Condition) :
    (nested hops inner).map Condition.blank = nested hops (inner.map Condition.blank) := by
  induction hops with
  | nil => rfl
  | cons hop more ih =>
    simp only [nested, Option.map_some, Condition.blank, Condition.blankAll_eq, List.map_cons, ← ih]
    cases nested more inner <;> rfl

theorem existence_blank (hops : List Relation) (inner : Option Junction) :
    (existence hops inner).blank = existence hops (inner.map Junction.blank) := by
  have hinner : (inner.map Junction.toCondition).map Condition.blank =
      (inner.map Junction.blank).map Junction.toCondition := by
    cases inner with
    | none => rfl
    | some j => exact congrArg some j.blank_toCondition
  simp only [existence, Junction.blank, ← hinner, ← nested_blank]
  cases nested hops (inner.map Junction.toCondition) <;> rfl

theorem loadRoute_blank (d : Draft) (route : List (String × Relation)) :
    (d.loadRoute route).blank = d.blank.loadRoute route := by
  unfold loadRoute
  induction route generalizing d with
  | nil => rfl
  | cons station more ih =>
    obtain ⟨path, hop⟩ := station
    have hhas : d.blank.hasLoad path = d.hasLoad path := by
      simp only [hasLoad, blank, List.any_map, Function.comp_def, Load.blank]
    simp only [List.foldl_cons, ih, hhas]
    congr 1
    split
    · rfl
    · simp only [blank, List.map_append, List.map_singleton]
      rfl

theorem put_blank (load : Load) (loads : List Load) :
    (load.put loads).map Load.blank = load.blank.put (loads.map Load.blank) := by
  induction loads with
  | nil => rfl
  | cons other more ih =>
    have hpath : (other.blank.path = load.blank.path) = (other.path = load.path) := rfl
    simp only [Load.put, List.map_cons, hpath]
    split
    · rfl
    · rw [List.map_cons, ih]

theorem loadScope_blank (d : Draft) (route : List (String × Relation)) (inner : Draft) :
    (d.loadScope route inner).blank = d.blank.loadScope route inner.blank := by
  unfold loadScope
  split
  · rename_i path hop _
    have hload : (Load.ofHop path hop inner.rowsSelect).blank =
        Load.ofHop path hop inner.blank.rowsSelect := by
      simp only [Load.ofHop, Load.blank, rowsSelect_blank]
    simp only [blank, put_blank, hload]
  · rfl

end Draft

namespace Draft

def selects (d : Draft) (limit number : UInt64) : List Select :=
  (d.page limit number).select :: d.countSelect :: d.loads.map (·.select)

theorem shapes_page (d : Draft) (limit number : UInt64) (dialect : Dialect) :
    ((d.page limit number).statements dialect).map Statement.shape =
      (d.selects limit number).map fun s ↦ (s.statement dialect).shape := by
  simp only [Page.statements, selects, page, List.map_cons, List.map_map, Function.comp_def]

theorem selects_blank (d : Draft) (limit number : UInt64) :
    d.blank.selects limit number = (d.selects limit number).map Select.blank := by
  have hselect : (d.blank.page limit number).select = (d.page limit number).select.blank := by
    simp only [page, rowsSelect_blank]
    split <;> rfl
  have hloads : d.blank.loads.map (·.select) = (d.loads.map (·.select)).map Select.blank := by
    simp only [blank, List.map_map, Function.comp_def, Load.blank]
  rw [selects, selects, hselect, hloads, countSelect_blank, List.map_cons, List.map_cons]

theorem shapes_blank (d : Draft) (limit number : UInt64) (dialect : Dialect) :
    ((d.blank.page limit number).statements dialect).map Statement.shape =
      ((d.page limit number).statements dialect).map Statement.shape := by
  rw [shapes_page, shapes_page, selects_blank, List.map_map]
  exact List.map_congr_left fun s _ ↦ s.shape_blank dialect

end Draft

end Listing
