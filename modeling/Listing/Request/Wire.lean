import Listing.Request
import Listing.Json.Reader
import Listing.Json.Writer

namespace Listing

def Connective.ofJson? (j : Json) : Option Connective := j.string?.map ofName

def Direction.ofJson? (j : Json) : Option Direction := j.string?.map ofName

namespace Filter

def toJson (f : Filter) : Json :=
  .object [("field", .string f.field), ("operator", .string f.operator),
    ("value", .string f.value), ("method", .string f.connective.name)]

def ofJson? (j : Json) : Option Filter := do
  let [field, operator, value, method] ← j.fields ["field", "operator", "value", "method"] | none
  return {
    field := ← Json.required Json.string? field
    operator := ← Json.required Json.string? operator
    value := ← Json.optional "" Json.string? value
    connective := ← Json.optional .and Connective.ofJson? method }

end Filter

namespace Order

def toJson (o : Order) : Json :=
  .object [("field", .string o.field), ("direction", .string o.direction.name)]

def ofJson? (j : Json) : Option Order := do
  let [field, direction] ← j.fields ["field", "direction"] | none
  return {
    field := ← Json.required Json.string? field
    direction := ← Json.optional .ascending Direction.ofJson? direction }

end Order

namespace Window

def toJson (w : Window) : Json :=
  .object [("page", .nat w.page.toNat), ("limit", .nat w.limit.toNat)]

def ofJson? (j : Json) : Option Window := do
  let [page, limit] ← j.fields ["page", "limit"] | none
  return {
    page := ← Json.required Json.uint64? page
    limit := ← Json.required Json.uint64? limit }

end Window

namespace Request

def includeToJson (path : String) : Json := .object [("name", .string path)]

def includeOfJson? (j : Json) : Option String := do
  let [name] ← j.fields ["name"] | none
  Json.required Json.string? name

def windowOfJson? : Json → Option (Option Window)
  | .null => some none
  | j => (Window.ofJson? j).map some

def toJson (r : Request) : Json :=
  .object [("filters", .array (r.filters.map Filter.toJson)),
    ("sorts", .array (r.orders.map Order.toJson)),
    ("connections", .array (r.includes.map includeToJson)),
    ("pagination", r.window?.elim .null Window.toJson)]

def ofJson? (j : Json) : Option Request := do
  let [filters, sorts, connections, pagination] ←
    j.fields ["filters", "sorts", "connections", "pagination"] | none
  return {
    filters := ← Json.optional [] (Json.list? Filter.ofJson?) filters
    orders := ← Json.optional [] (Json.list? Order.ofJson?) sorts
    includes := ← Json.optional [] (Json.list? includeOfJson?) connections
    window? := ← Json.optional none windowOfJson? pagination }

def write (r : Request) : String := r.toJson.write

def read? (text : String) : Option Request := (Json.read? text).bind ofJson?

end Request

end Listing
