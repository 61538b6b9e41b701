import Listing.Schema
import Listing.Proofs.Segments

namespace Listing

namespace Catalog

theorem walk_cons_eq_ok {catalog : Catalog} {table name : String} {names : List String}
    {hops : List Relation} : catalog.walk table (name :: names) = .ok hops ↔
      ∃ hop more, catalog.relation? table name = some hop ∧
        catalog.walk hop.target names = .ok more ∧ hop :: more = hops := by
  rw [walk]
  cases catalog.relation? table name with
  | none => simp
  | some hop => cases hw : catalog.walk hop.target names <;> simp [hw, Except.map]

theorem walk_cons_eq_error {catalog : Catalog} {table name : String} {names : List String}
    {f : Failure} : catalog.walk table (name :: names) = .error f ↔
      (catalog.relation? table name = none ∧ .unknownRelation table name = f) ∨
        ∃ hop, catalog.relation? table name = some hop ∧
          catalog.walk hop.target names = .error f := by
  rw [walk]
  cases catalog.relation? table name with
  | none => simp
  | some hop => cases hw : catalog.walk hop.target names <;> simp [hw, Except.map]

@[simp] theorem lastTable_nil (table : String) : lastTable table [] = table := rfl

@[simp] theorem lastTable_cons (table : String) (hop : Relation) (more : List Relation) :
    lastTable table (hop :: more) = lastTable hop.target more := by
  cases more with
  | nil => rfl
  | cons next more => simp only [lastTable, List.getLast?_cons_cons]; rfl

theorem lastTable_append (table : String) (hops more : List Relation) :
    lastTable table (hops ++ more) = lastTable (lastTable table hops) more := by
  induction hops generalizing table with
  | nil => rfl
  | cons hop hops ih => rw [List.cons_append, lastTable_cons, lastTable_cons, ih]

theorem walk_append (catalog : Catalog) (table : String) (names more : List String) :
    catalog.walk table (names ++ more) = (catalog.walk table names).bind fun hops ↦
      (catalog.walk (lastTable table hops) more).map (hops ++ ·) := by
  induction names generalizing table with
  | nil =>
    rw [List.nil_append, walk]
    change _ = (catalog.walk table more).map (fun hops ↦ hops)
    cases catalog.walk table more <;> rfl
  | cons name names ih =>
    rw [List.cons_append, walk, walk]
    cases catalog.relation? table name with
    | none => rfl
    | some hop =>
      simp only [ih]
      cases catalog.walk hop.target names with
      | error f => rfl
      | ok hops =>
        simp only [Except.bind, Except.map, lastTable_cons]
        cases catalog.walk (lastTable hop.target hops) more <;> rfl

theorem resolve_append (catalog : Catalog) (table a b : String) :
    catalog.resolve table (a ++ "." ++ b) = (catalog.resolve table a).bind fun hops ↦
      (catalog.resolve (lastTable table hops) b).map (hops ++ ·) := by
  rw [resolve, Text.parts_append, walk_append]
  rfl

theorem resolve_of_not_mem {catalog : Catalog} {table name : String} {hops : List Relation}
    (h : '.' ∉ name.toList) : catalog.resolve table name = .ok hops ↔
      ∃ hop, catalog.relation? table name = some hop ∧ hops = [hop] := by
  rw [resolve, Text.parts_of_not_mem h, walk_cons_eq_ok]
  constructor
  · rintro ⟨hop, more, hrelation, hw, rfl⟩
    obtain rfl : [] = more := Except.ok.inj hw
    exact ⟨hop, hrelation, rfl⟩
  · rintro ⟨hop, hrelation, rfl⟩
    exact ⟨hop, [], hrelation, rfl, rfl⟩

theorem exists_of_mem_walk {catalog : Catalog} {table : String} {names : List String}
    {hops : List Relation} (h : catalog.walk table names = .ok hops) :
    ∀ hop ∈ hops, ∃ owner name, catalog.relation? owner name = some hop := by
  induction names generalizing table hops with
  | nil =>
    obtain rfl : [] = hops := Except.ok.inj h
    exact fun hop hmem ↦ absurd hmem List.not_mem_nil
  | cons name names ih =>
    obtain ⟨hop, more, hr, hw, rfl⟩ := walk_cons_eq_ok.mp h
    exact List.forall_mem_cons.mpr ⟨⟨table, name, hr⟩, ih hw⟩

end Catalog

theorem Schema.mem_of_relation? {schema : Schema} {owner name : String} {relation : Relation}
    (h : schema.relation? owner name = some relation) : relation ∈ schema.relations := by
  rw [relation?, List.findRev?_eq_find?_reverse] at h
  exact List.mem_reverse.mp (List.mem_of_find?_eq_some h)

def shelf : Schema where
  relations := [⟨"posts", "author", "users", "author_id", "id"⟩,
    ⟨"posts", "blogTags", "tags", "id", "post_id"⟩,
    ⟨"users", "company", "companies", "company_id", "id"⟩]

end Listing
