import Listing.Request.Wire
import Listing.Settings
import Listing.Proofs.JsonTexts
import Mathlib.Data.List.Nodup

namespace Listing

namespace Json

theorem filter_key {members : List (String × Json)} (h : (members.map (·.1)).Nodup)
    {member : String × Json} (hmem : member ∈ members) :
    members.filter (·.1 == member.1) = [member] := by
  induction members with
  | nil => exact absurd hmem List.not_mem_nil
  | cons first more ih =>
    rw [List.map_cons, List.nodup_cons] at h
    obtain ⟨hfirst, hmore⟩ := h
    rcases List.mem_cons.mp hmem with rfl | hmem
    · have hnone : more.filter (·.1 == member.1) = [] := by
        apply List.filter_eq_nil_iff.mpr
        intro other hother heq
        rw [beq_iff_eq] at heq
        exact hfirst (heq ▸ List.mem_map_of_mem hother)
      rw [List.filter_cons_of_pos (by rw [beq_self_eq_true]), hnone]
    · have hne : first.1 ≠ member.1 := fun heq ↦ hfirst (heq ▸ List.mem_map_of_mem hmem)
      rw [List.filter_cons_of_neg (by simpa using hne)]
      exact ih hmore hmem

theorem fields_object {names : List String} (h : names.Nodup) {members : List (String × Json)}
    (hnames : members.map (·.1) = names) :
    fields names (.object members) = some (members.map (some ·.2)) := by
  subst hnames
  have hread : ∀ wanted ⊆ members,
      fields (wanted.map (·.1)) (.object members) = some (wanted.map (some ·.2)) := by
    intro wanted hwanted
    induction wanted with
    | nil => rfl
    | cons member wanted ih =>
      obtain ⟨hmem, hmore⟩ := List.cons_subset.mp hwanted
      have hrest := ih hmore
      rw [fields] at hrest
      rw [List.map_cons, fields, List.mapM_cons, filter_key h hmem, hrest]
      rfl
  exact hread members (List.Subset.refl members)

theorem list?_map {α : Type} {toJson : α → Json} {read : Json → Option α}
    (h : ∀ a, read (toJson a) = some a) (l : List α) :
    list? read (.array (l.map toJson)) = some l := by
  rw [list?, List.mapM_map]
  induction l with
  | nil => rfl
  | cons a l ih =>
    rw [List.mapM_cons, Function.comp_apply, h, ih]
    rfl

theorem plain_array_map {α : Type} {toJson : α → Json} (h : ∀ a, (toJson a).Plain)
    (l : List α) : (Json.array (l.map toJson)).Plain := by
  apply plainAll_iff.mpr
  intro item hitem
  obtain ⟨a, -, rfl⟩ := List.mem_map.mp hitem
  exact h a

theorem uint64?_nat (n : UInt64) : uint64? (.nat n.toNat) = some n := by
  have hdigits : (Nat.toDigits 10 n.toNat).all Char.isDigit := by
    rw [List.all_eq_true]
    intro c hc
    exact Nat.isDigit_of_mem_toDigits (by omega) (by omega) hc
  simp only [uint64?, nat, Nat.toString_eq_ofList_toDigits, String.toList_ofList,
    Nat.ofDigitChars_toDigits (b := 10) (by omega) (by omega)]
  rw [if_pos ⟨hdigits, n.toNat_lt⟩, UInt64.ofNat_toNat]

end Json

theorem Connective.ofName_name (c : Connective) : ofName c.name = c := by
  cases c <;> decide +kernel

theorem Direction.ofName_name (d : Direction) : ofName d.name = d := by
  cases d <;> decide +kernel

theorem Sql.Dialect.ofName?_name (d : Dialect) : ofName? d.name = some d := by
  cases d <;> decide +kernel

theorem Filter.ofJson?_toJson (f : Filter) : ofJson? f.toJson = some f := by
  have hfields : f.toJson.fields ["field", "operator", "value", "method"] =
      some [some (.string f.field), some (.string f.operator), some (.string f.value),
        some (.string f.connective.name)] := Json.fields_object (by decide) rfl
  have hmethod : Connective.ofJson? (.string f.connective.name) = some f.connective :=
    congrArg some f.connective.ofName_name
  simp only [ofJson?, hfields, Option.bind_eq_bind, Option.bind_some, Json.required, Json.optional,
    Json.string?, hmethod, Option.pure_def]

theorem Filter.plain_toJson (f : Filter) : f.toJson.Plain :=
  ⟨trivial, trivial, trivial, trivial, trivial⟩

theorem Order.ofJson?_toJson (o : Order) : ofJson? o.toJson = some o := by
  have hfields : o.toJson.fields ["field", "direction"] =
      some [some (.string o.field), some (.string o.direction.name)] :=
    Json.fields_object (by decide) rfl
  have hdirection : Direction.ofJson? (.string o.direction.name) = some o.direction :=
    congrArg some o.direction.ofName_name
  simp only [ofJson?, hfields, Option.bind_eq_bind, Option.bind_some, Json.required, Json.optional,
    Json.string?, hdirection, Option.pure_def]

theorem Order.plain_toJson (o : Order) : o.toJson.Plain := ⟨trivial, trivial, trivial⟩

theorem Window.ofJson?_toJson (w : Window) : ofJson? w.toJson = some w := by
  have hfields : w.toJson.fields ["page", "limit"] =
      some [some (.nat w.page.toNat), some (.nat w.limit.toNat)] :=
    Json.fields_object (by decide) rfl
  simp only [ofJson?, hfields, Option.bind_eq_bind, Option.bind_some, Json.required,
    Json.uint64?_nat, Option.pure_def]

theorem Window.plain_toJson (w : Window) : w.toJson.Plain := ⟨⟨_, rfl⟩, ⟨_, rfl⟩, trivial⟩

namespace Request

theorem includeOfJson?_includeToJson (path : String) :
    includeOfJson? (includeToJson path) = some path := by
  have hfields : (includeToJson path).fields ["name"] = some [some (.string path)] :=
    Json.fields_object (by decide) rfl
  rw [includeOfJson?, hfields]
  rfl

theorem plain_includeToJson (path : String) : (includeToJson path).Plain := ⟨trivial, trivial⟩

theorem windowOfJson?_elim (window? : Option Window) :
    windowOfJson? (window?.elim .null Window.toJson) = some window? := by
  cases window? with
  | none => rfl
  | some w => exact congrArg (Option.map some) w.ofJson?_toJson

theorem ofJson?_toJson (r : Request) : ofJson? r.toJson = some r := by
  have hfields : r.toJson.fields ["filters", "sorts", "connections", "pagination"] =
      some [some (.array (r.filters.map Filter.toJson)), some (.array (r.orders.map Order.toJson)),
        some (.array (r.includes.map includeToJson)), some (r.window?.elim .null Window.toJson)] :=
    Json.fields_object (by decide) rfl
  simp only [ofJson?, hfields, Option.bind_eq_bind, Option.bind_some, Json.optional,
    Json.list?_map Filter.ofJson?_toJson, Json.list?_map Order.ofJson?_toJson,
    Json.list?_map includeOfJson?_includeToJson, windowOfJson?_elim, Option.pure_def]

theorem plain_toJson (r : Request) : r.toJson.Plain := by
  have hfilters : (Json.array (r.filters.map Filter.toJson)).Plain :=
    Json.plain_array_map Filter.plain_toJson r.filters
  have horders : (Json.array (r.orders.map Order.toJson)).Plain :=
    Json.plain_array_map Order.plain_toJson r.orders
  have hincludes : (Json.array (r.includes.map includeToJson)).Plain :=
    Json.plain_array_map plain_includeToJson r.includes
  have hwindow : (r.window?.elim .null Window.toJson).Plain := by
    cases r.window? with
    | none => exact trivial
    | some w => exact w.plain_toJson
  exact ⟨hfilters, horders, hincludes, hwindow, trivial⟩

theorem read?_write (r : Request) : read? r.write = some r := by
  rw [read?, write, Json.read?_write r.plain_toJson, Option.bind_some, ofJson?_toJson]

end Request

theorem Relation.ofJson?_toJson (r : Relation) : ofJson? r.toJson = some r := by
  have hfields : r.toJson.fields ["owner", "name", "target", "owner_column", "target_column"] =
      some [some (.string r.owner), some (.string r.name), some (.string r.target),
        some (.string r.ownerColumn), some (.string r.targetColumn)] :=
    Json.fields_object (by decide) rfl
  simp only [ofJson?, hfields, Option.bind_eq_bind, Option.bind_some, Json.required, Json.string?,
    Option.pure_def]

theorem Relation.plain_toJson (r : Relation) : r.toJson.Plain :=
  ⟨trivial, trivial, trivial, trivial, trivial, trivial⟩

namespace Settings

variable (s : Settings)

theorem separatorOfJson?_object (separator : Char) : separatorOfJson?
    (.object [("list_separator", .string (String.ofList [separator]))]) = some separator := by
  have hfields : (Json.object [("list_separator", .string (String.ofList [separator]))]).fields
      ["list_separator"] = some [some (.string (String.ofList [separator]))] :=
    Json.fields_object (by decide) rfl
  simp only [separatorOfJson?, hfields, Option.bind_eq_bind, Option.bind_some, Json.optional,
    charOfJson?, String.toList_ofList]

theorem databaseOfJson?_object (dialect : Sql.Dialect) :
    databaseOfJson? (.object [("dialect", .string dialect.name)]) = some dialect := by
  have hfields : (Json.object [("dialect", .string dialect.name)]).fields ["dialect"] =
      some [some (.string dialect.name)] := Json.fields_object (by decide) rfl
  simp only [databaseOfJson?, hfields, Option.bind_eq_bind, Option.bind_some, Json.optional,
    dialectOfJson?, dialect.ofName?_name]

theorem schemaOfJson?_object (relations : List Relation) : schemaOfJson?
    (.object [("relations", .array (relations.map Relation.toJson))]) = some ⟨relations⟩ := by
  have hfields : (Json.object [("relations", .array (relations.map Relation.toJson))]).fields
      ["relations"] = some [some (.array (relations.map Relation.toJson))] :=
    Json.fields_object (by decide) rfl
  simp only [schemaOfJson?, hfields, Option.bind_eq_bind, Option.bind_some, Json.optional,
    Json.list?_map Relation.ofJson?_toJson, Option.pure_def]

theorem ofJson?_toJson : ofJson? s.toJson = some s := by
  have hfields : s.toJson.fields ["planner", "database", "schema"] =
      some [some (.object [("list_separator", .string (String.ofList [s.separator]))]),
        some (.object [("dialect", .string s.dialect.name)]),
        some (.object [("relations", .array (s.schema.relations.map Relation.toJson))])] :=
    Json.fields_object (by decide) rfl
  simp only [ofJson?, hfields, Option.bind_eq_bind, Option.bind_some, Json.optional,
    separatorOfJson?_object, databaseOfJson?_object, schemaOfJson?_object, Option.pure_def]

theorem plain_toJson : s.toJson.Plain := by
  have hrelations : (Json.array (s.schema.relations.map Relation.toJson)).Plain :=
    Json.plain_array_map Relation.plain_toJson s.schema.relations
  exact ⟨⟨trivial, trivial⟩, ⟨trivial, trivial⟩, ⟨hrelations, trivial⟩, trivial⟩

theorem read_write (refusal : String → String) : read s.write refusal = .ok s := by
  rw [read, write, Json.read?_write s.plain_toJson, Option.elim_some, ofJson, ofJson?_toJson]
  rfl

end Settings

/-- The texts of requests and of settings are read back, whatever characters they hold. -/
theorem texts_read_back :
    (∀ r : Request, Request.read? r.write = some r) ∧
      ∀ (s : Settings) (refusal : String → String), Settings.read s.write refusal = .ok s :=
  ⟨Request.read?_write, Settings.read_write⟩

end Listing
