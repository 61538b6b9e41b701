import Listing.Schema
import Listing.Json.Reader
import Listing.Json.Writer
import Listing.Sql.Dialect

namespace Listing

open Sql

structure Settings where
  separator : Char := '|'
  dialect : Dialect := .postgres
  schema : Schema := {}
  deriving DecidableEq

namespace Relation

def toJson (r : Relation) : Json :=
  .object [("owner", .string r.owner), ("name", .string r.name), ("target", .string r.target),
    ("owner_column", .string r.ownerColumn), ("target_column", .string r.targetColumn)]

def ofJson? (j : Json) : Option Relation := do
  let [owner, name, target, ownerColumn, targetColumn] ←
    j.fields ["owner", "name", "target", "owner_column", "target_column"] | none
  return {
    owner := ← Json.required Json.string? owner
    name := ← Json.required Json.string? name
    target := ← Json.required Json.string? target
    ownerColumn := ← Json.required Json.string? ownerColumn
    targetColumn := ← Json.required Json.string? targetColumn }

end Relation

namespace Settings

def charOfJson? : Json → Option Char
  | .string s =>
    match s.toList with
    | [c] => some c
    | _ => none
  | _ => none

/-- A dialect is given by its name, or by its name as the key of a null. -/
def dialectOfJson? : Json → Option Dialect
  | .string name => Dialect.ofName? name
  | .object [(name, .null)] => Dialect.ofName? name
  | _ => none

def separatorOfJson? (j : Json) : Option Char := do
  let [separator] ← j.fields ["list_separator"] | none
  Json.optional '|' charOfJson? separator

def databaseOfJson? (j : Json) : Option Dialect := do
  let [dialect] ← j.fields ["dialect"] | none
  Json.optional .postgres dialectOfJson? dialect

def schemaOfJson? (j : Json) : Option Schema := do
  let [relations] ← j.fields ["relations"] | none
  return { relations := ← Json.optional [] (Json.list? Relation.ofJson?) relations }

def toJson (s : Settings) : Json :=
  .object
    [("planner", .object [("list_separator", .string (String.ofList [s.separator]))]),
      ("database", .object [("dialect", .string s.dialect.name)]),
      ("schema", .object [("relations", .array (s.schema.relations.map Relation.toJson))])]

def ofJson? (j : Json) : Option Settings := do
  let [planner, database, schema] ← j.fields ["planner", "database", "schema"] | none
  return {
    separator := ← Json.optional '|' separatorOfJson? planner
    dialect := ← Json.optional .postgres databaseOfJson? database
    schema := ← Json.optional {} schemaOfJson? schema }

def ofJson (j : Json) (reason : String := "") : Except Failure Settings :=
  (ofJson? j).elim (.error (@Failure.invalidSettings reason)) .ok

def write (s : Settings) : String := s.toJson.write

/-- What a text that cannot be read is refused with is up to the reader of texts. -/
def read (text : String) (refusal : String → String := fun _ ↦ "") : Except Failure Settings :=
  (Json.read? text).elim (.error (@Failure.invalidSettings (refusal text)))
    (ofJson · (refusal text))

end Settings

end Listing
