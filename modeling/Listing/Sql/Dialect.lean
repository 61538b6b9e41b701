namespace Listing.Sql

inductive Dialect
  | postgres
  | mysql
  | sqlite
  deriving DecidableEq

namespace Dialect

def all : List Dialect := [.postgres, .mysql, .sqlite]

def name : Dialect → String
  | .postgres => "postgres"
  | .mysql => "mysql"
  | .sqlite => "sqlite"

def ofName? (name : String) : Option Dialect := all.find? (·.name == name)

def nameQuote : Dialect → Char
  | .mysql => Char.ofNat 0x60
  | _ => '"'

def quoteName (d : Dialect) (name : String) : String :=
  let quote := d.nameQuote
  String.ofList (quote :: name.toList.flatMap (fun c ↦ if c = quote then [c, c] else [c]) ++
    [quote])

def placeholder (n : Nat) : Dialect → String
  | .postgres => "$" ++ toString n
  | _ => "?"

def doubled (c : Char) : List Char := if c = '\'' then [c, c] else [c]

def backslashed (c : Char) : List Char :=
  match c with
  | '\\' => ['\\', '\\']
  | '"' => ['\\', '"']
  | '\'' => ['\\', '\'']
  | '\x00' => ['\\', '0']
  | '\x08' => ['\\', 'b']
  | '\t' => ['\\', 't']
  | '\x1a' => ['\\', 'z']
  | '\n' => ['\\', 'n']
  | '\r' => ['\\', 'r']
  | c => [c]

/-- A text as a literal. With backslashes in it, the literal of Postgres is marked by an `E`. -/
def quoteText (d : Dialect) (s : String) : String :=
  let body := s.toList.flatMap (if d = .sqlite then doubled else backslashed)
  let literal := String.ofList ('\'' :: body ++ ['\''])
  if d = .postgres ∧ '\\' ∈ body then "E" ++ literal else literal

end Dialect

end Listing.Sql
