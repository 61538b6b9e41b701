import Listing.Proofs.Checks

namespace Listing

namespace Path

/-- The names that a check of a path looks up. -/
def lookedUp (text : String) : List String :=
  ((Text.parts '.' text).filter (· ≠ "")).map Text.camel

def trailing (leafLast : Bool) (names : List String) : List String :=
  if leafLast then names.getLast?.toList else []

theorem trailing_cons (leafLast : Bool) (name : String) (more : List String) :
    trailing leafLast (name :: more) =
      if leafLast && more.isEmpty then [name] else trailing leafLast more := by
  cases leafLast with
  | false => rfl
  | true =>
    cases more with
    | nil => rfl
    | cons next more => simp [trailing, List.getLast?_cons_cons]

theorem not_mem_of_mem_lookedUp {text name : String} (h : name ∈ lookedUp text) :
    '.' ∉ name.toList := by
  obtain ⟨segment, hsegment, rfl⟩ := List.mem_map.mp h
  exact Text.not_mem_camel (Text.not_mem_of_mem_parts (List.mem_filter.mp hsegment).1)

end Path

namespace Catalog

variable {catalog : Catalog}

/-- The relations along names that are joined to a chain, if there are any names. -/
def follow (catalog : Catalog) (root : String) (names : List String) :
    Except Failure (List Relation) :=
  if names = [] then .ok [] else catalog.resolve root (".".intercalate names)

theorem follow_eq_walk {root : String} {names : List String}
    (h : ∀ name ∈ names, '.' ∉ name.toList) : catalog.follow root names = catalog.walk root names := by
  by_cases hnil : names = []
  · subst hnil
    rfl
  · rw [follow, if_neg hnil, resolve, Text.parts_intercalate hnil h]

theorem scan_of_walk {leafLast : Bool} {owner : String} {names : List String}
    {hops : List Relation} (h : catalog.walk owner (Path.leading leafLast names) = .ok hops) :
    catalog.scan leafLast owner names =
      { connections := Path.leading leafLast names ++ (Path.trailing leafLast names).filter fun name ↦
          (catalog.relation? (lastTable owner hops) name).isSome } := by
  induction names generalizing owner hops with
  | nil => cases leafLast <;> rfl
  | cons name more ih =>
    rw [Path.leading_cons] at h
    rw [scan, Path.leading_cons, Path.trailing_cons]
    by_cases hlast : (leafLast && more.isEmpty) = true
    · obtain ⟨rfl, hmore⟩ := (Bool.and_eq_true _ _).mp hlast
      obtain rfl := List.isEmpty_iff.mp hmore
      obtain rfl : [] = hops := Except.ok.inj h
      cases hrelation : catalog.relation? owner name <;>
        simp [scan, Check.passed, hrelation]
    · simp only [if_neg hlast] at h ⊢
      obtain ⟨hop, later, hrelation, hwalk, rfl⟩ := walk_cons_eq_ok.mp h
      simp only [hrelation, ih hwalk, Check.passed, lastTable_cons, List.cons_append]

theorem head?_missing_scan {leafLast : Bool} {owner table missing : String} {names : List String}
    (h : catalog.walk owner (Path.leading leafLast names) =
      .error (.unknownRelation table missing)) :
    (catalog.scan leafLast owner names).missing.head? = some (table, missing) := by
  induction names generalizing owner with
  | nil => cases leafLast <;> cases h
  | cons name more ih =>
    rw [Path.leading_cons] at h
    rw [scan]
    by_cases hlast : (leafLast && more.isEmpty) = true
    · rw [if_pos hlast] at h
      cases h
    · rw [if_neg hlast] at h ⊢
      rcases walk_cons_eq_error.mp h with ⟨hnone, hfailure⟩ | ⟨hop, hrelation, hwalk⟩
      · obtain ⟨rfl, rfl⟩ := Failure.unknownRelation.inj hfailure
        rw [hnone]
        rfl
      · rw [hrelation]
        exact ih hwalk

/-- What a check says of the names that have to be relations: where all of them are, it gives them
back, and the last name if that is a relation as well. Otherwise it names first where a walk
ends. -/
structure Check.Reports (catalog : Catalog) (root : String) (leafLast : Bool)
    (names : List String) (c : Check) : Prop where
  exclusive : c.errors = [] ∨ c.connections = []
  passed : ∀ hops, catalog.follow root (Path.leading leafLast names) = .ok hops → c.errors = [] ∧
    c.connections = Path.leading leafLast names ++ (Path.trailing leafLast names).filter fun name ↦
      (catalog.relation? (lastTable root hops) name).isSome
  missed : ∀ owner name, catalog.follow root (Path.leading leafLast names) =
    .error (.unknownRelation owner name) →
      c.errors.head? = some ("Relation does not exist: " ++ owner ++ "::" ++ name)
  total : (∃ hops, catalog.follow root (Path.leading leafLast names) = .ok hops) ∨
    ∃ owner name, catalog.follow root (Path.leading leafLast names) =
      .error (.unknownRelation owner name)

theorem check_reports (catalog : Catalog) (root text : String) (leafLast : Bool) :
    (catalog.check root text leafLast).Reports catalog root leafLast (Path.lookedUp text) := by
  have hfollow : catalog.follow root (Path.leading leafLast (Path.lookedUp text)) =
      catalog.walk root (Path.leading leafLast (Path.lookedUp text)) :=
    follow_eq_walk fun name hname ↦ Path.not_mem_of_mem_lookedUp (Path.mem_of_mem_leading hname)
  have hmissing : (catalog.check root text leafLast).missing =
      (catalog.scan leafLast root (Path.lookedUp text)).missing := by
    rw [check]
    split <;> rfl
  constructor
  case exclusive =>
    rw [check]
    split
    case isTrue hvalid => exact Or.inl (by simpa [Check.isValid, Check.errors] using hvalid)
    case isFalse => exact Or.inr rfl
  case passed =>
    intro hops h
    rw [hfollow] at h
    have hscan := scan_of_walk h
    have hcheck : catalog.check root text leafLast =
        catalog.scan leafLast root (Path.lookedUp text) := by
      rw [check]
      exact if_pos (by rw [← Path.lookedUp, hscan]; rfl)
    rw [hcheck, hscan]
    exact ⟨rfl, rfl⟩
  case missed =>
    intro owner name h
    rw [hfollow] at h
    rw [Check.errors, hmissing, List.head?_map, head?_missing_scan h]
    rfl
  case total =>
    rw [hfollow]
    cases h : catalog.walk root (Path.leading leafLast (Path.lookedUp text)) with
    | ok hops => exact Or.inl ⟨hops, rfl⟩
    | error f =>
      obtain ⟨owner, name, rfl⟩ := walk_error h
      exact Or.inr ⟨owner, name, rfl⟩

example : (shelf.catalog.check "posts" "editor..author.ghost" false).errors =
    ["Relation does not exist: posts::editor", "Relation does not exist: users::ghost"] := by
  decide +kernel

end Catalog

end Listing
