import Listing.Sql.Dialect
import Listing.Sql.Select
import Listing.Sql.Token

namespace Listing.Sql

/-- A piece of a statement. Names and parameters are spelt as the dialect has them. -/
inductive Piece
  | plain (s : String)
  | name (s : String)
  | param (v : Value)

def Column.pieces (c : Column) : List Piece := [.name c.table, .plain ".", .name c.name]

def commas : List (List Piece) → List Piece := List.intercalate [.plain ", "]

/-- An empty list of values makes a comparison of two numbers that decides the test. -/
def Atom.pieces : Atom → List Piece
  | .compare column op value =>
    column.pieces ++ [.plain (" " ++ op.keyword ++ " "), .param value]
  | .oneOf _ [] => [.param (.int 1), .plain " = ", .param (.int 2)]
  | .noneOf _ [] => [.param (.int 1), .plain " = ", .param (.int 1)]
  | .oneOf column values =>
    column.pieces ++ .plain " IN (" :: commas (values.map ([.param ·])) ++ [.plain ")"]
  | .noneOf column values =>
    column.pieces ++ .plain " NOT IN (" :: commas (values.map ([.param ·])) ++ [.plain ")"]
  | .null column => column.pieces ++ [.plain " IS NULL"]
  | .notNull column => column.pieces ++ [.plain " IS NOT NULL"]
  | .joins left right => left.pieces ++ .plain " = " :: right.pieces

mutual

def Token.pieces : Token → List Piece
  | .test a => a.pieces
  | .existing table body =>
    [.plain "EXISTS(SELECT ", .param (.int 1), .plain " FROM ", .name table, .plain " WHERE "] ++
      Token.piecesAll body ++ [.plain ")"]
  | .connective .and => [.plain " AND "]
  | .connective .or => [.plain " OR "]
  | .opening => [.plain "("]
  | .closing => [.plain ")"]

def Token.piecesAll : List Token → List Piece
  | [] => []
  | t :: more => t.pieces ++ Token.piecesAll more

end

namespace Select

def projectionPieces : Projection → List Piece
  | .rows => [.plain "*"]
  | .rowCount => [.plain "COUNT(*)"]

def conditionPieces : Option Junction → List Piece
  | none => []
  | some j => .plain " WHERE " :: Token.piecesAll j.tokens

def orderPieces : List (Column × Direction) → List Piece
  | [] => []
  | orders =>
    .plain " ORDER BY " ::
      commas (orders.map fun (column, d) ↦ column.pieces ++ [.plain (" " ++ d.name)])

def boundPieces (keyword : String) : Option UInt64 → List Piece
  | none => []
  | some n => [.plain keyword, .param (.bigUnsigned n)]

def pieces (s : Select) : List Piece :=
  .plain "SELECT " :: projectionPieces s.projection ++ [.plain " FROM ", .name s.table] ++
    conditionPieces s.condition? ++ orderPieces s.orders ++
    boundPieces " LIMIT " s.limit? ++ boundPieces " OFFSET " s.offset?

end Select

structure Statement where
  sql : String
  values : List Value

namespace Dialect

def placed (d : Dialect) (n : Nat) : List Piece → List String
  | [] => []
  | .plain s :: more => s :: d.placed n more
  | .name s :: more => d.quoteName s :: d.placed n more
  | .param _ :: more => d.placeholder (n + 1) :: d.placed (n + 1) more

def literal (d : Dialect) : Value → String
  | .bool true => "TRUE"
  | .bool false => "FALSE"
  | .int i => toString i.toInt
  | .bigInt i => toString i.toInt
  | .bigUnsigned n => toString n.toNat
  | .double x => x.text
  | .text s => d.quoteText s

def inlined (d : Dialect) : Piece → String
  | .plain s => s
  | .name s => d.quoteName s
  | .param v => d.literal v

end Dialect

def Piece.value? : Piece → Option Value
  | .param v => some v
  | _ => none

namespace Select

def statement (s : Select) (d : Dialect) : Statement where
  sql := String.join (d.placed 0 s.pieces)
  values := s.pieces.filterMap Piece.value?

def inline (s : Select) (d : Dialect) : String := String.join (s.pieces.map d.inlined)

end Select

end Listing.Sql
