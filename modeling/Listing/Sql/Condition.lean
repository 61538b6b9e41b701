import Listing.Predicate
import Listing.Sql.Value

namespace Listing.Sql

structure Column where
  table : String
  name : String
  deriving DecidableEq

/-- `table.name` is taken apart at the first dot; a bare name belongs to the given table. -/
def Column.ofField (table field : String) : Column :=
  match Text.cut? '.' field.toList with
  | some (table, name) => ⟨String.ofList table, String.ofList name⟩
  | none => ⟨table, field⟩

inductive Atom
  | compare (column : Column) (op : Comparison) (value : Value)
  | oneOf (column : Column) (values : List Value)
  | noneOf (column : Column) (values : List Value)
  | null (column : Column)
  | notNull (column : Column)
  | joins (left right : Column)
  deriving DecidableEq

inductive Condition
  | atom (a : Atom)
  /-- Some row of `table` satisfies the members, taken together by the connective. -/
  | existing (table : String) (c : Connective) (members : List Condition)
  | joined (c : Connective) (members : List Condition)

structure Junction where
  connective : Connective
  members : List Condition

namespace Junction

def single (c : Condition) : Junction := ⟨.and, [c]⟩

def toCondition : Junction → Condition
  | ⟨_, [c]⟩ => c
  | ⟨connective, members⟩ => .joined connective members

def narrow (c : Condition) : Option Junction → Junction
  | none => single c
  | some ⟨.and, members⟩ => ⟨.and, members ++ [c]⟩
  | some ⟨.or, members⟩ => ⟨.and, [toCondition ⟨.or, members⟩, c]⟩

end Junction

end Listing.Sql
