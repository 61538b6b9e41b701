import Listing.Predicate

namespace Listing

theorem lookup_map {α β γ : Type} [BEq β] [LawfulBEq β] (key : α → β) (value : α → γ) (b : β)
    (l : List α) :
    (l.map fun a ↦ (key a, value a)).lookup b = (l.find? (key · == b)).map value := by
  induction l with
  | nil => rfl
  | cons a more ih =>
    rw [List.map_cons, List.lookup_cons, List.find?_cons, BEq.comm]
    cases key a == b with
    | true => rfl
    | false => exact ih

namespace Operator

theorem mem_all (op : Operator) : op ∈ all := by
  cases op <;> decide

theorem find?_all (code : String) : all.find? (·.code == code) = (ofCode code).toOption := by
  unfold ofCode
  cases all.find? (·.code == code) <;> rfl

theorem code_of_ofCode {code : String} {op : Operator} (h : ofCode code = .ok op) :
    op.code = code := by
  have hfind := find?_all code
  rw [h] at hfind
  simpa using List.find?_some hfind

theorem ofCode_code (op : Operator) : ofCode op.code = .ok op := by
  cases op <;> rfl

theorem ofCode_eq_error {code : String} {e : Failure} :
    ofCode code = .error e ↔ (∀ op : Operator, op.code ≠ code) ∧ e = .unsupportedOperator code := by
  unfold ofCode
  cases h : all.find? (·.code == code) with
  | none =>
    have hnone (op : Operator) : op.code ≠ code := by
      simpa using List.find?_eq_none.mp h op op.mem_all
    simp [hnone, eq_comm]
  | some op =>
    have hop : op.code = code := by simpa using List.find?_some h
    exact iff_of_false (by simp) fun hall ↦ hall.1 op hop

end Operator

namespace Filter

/-- The operator of the filter is the code of none. -/
def IsUnsupported (f : Filter) : Prop := ∀ op : Operator, op.code ≠ f.operator

instance (f : Filter) : Decidable f.IsUnsupported :=
  decidable_of_iff (∀ op ∈ Operator.all, op.code ≠ f.operator)
    ⟨fun h op ↦ h op op.mem_all, fun h op _ ↦ h op⟩

variable (separator : Char) (f : Filter)

/-- What each operator asks of the field and the value of a filter. A list is written in one
value, between the separators. -/
def readings : List (String × Test) :=
  [("ct", .compare f.field .like ("%" ++ f.value ++ "%")),
    ("nct", .compare f.field .notLike ("%" ++ f.value ++ "%")),
    ("sw", .compare f.field .like (f.value ++ "%")),
    ("ew", .compare f.field .like ("%" ++ f.value)),
    ("eq", .compare f.field .equal f.value),
    ("ne", .compare f.field .unequal f.value),
    ("gt", .compare f.field .greater f.value),
    ("ge", .compare f.field .greaterEqual f.value),
    ("lt", .compare f.field .less f.value),
    ("le", .compare f.field .lessEqual f.value),
    ("in", .oneOf f.field (Text.parts separator f.value)),
    ("nin", .noneOf f.field (Text.parts separator f.value)),
    ("null", .null f.field),
    ("nnull", .notNull f.field),
    ("has", .has f.field)]

def reading? : Option Test := (f.readings separator).lookup f.operator

theorem reading?_has {f : Filter} (h : f.operator = "has") (field : String) :
    reading? separator { f with field } = some (.has field) := by
  rw [reading?, h]
  rfl

theorem readings_eq :
    f.readings separator = Operator.all.map fun op ↦ (op.code, f.test separator op) := rfl

theorem reading?_eq :
    f.reading? separator = (f.predicate separator).toOption.map Predicate.test := by
  rw [reading?, readings_eq, lookup_map, Operator.find?_all, predicate]
  cases Operator.ofCode f.operator <;> rfl

variable {separator f}

/-- A filter is compiled into what its operator asks, with its own connective. -/
theorem predicate_eq_ok {p : Predicate} : f.predicate separator = .ok p ↔
    f.reading? separator = some p.test ∧ p.connective = f.connective := by
  obtain ⟨test, connective⟩ := p
  rw [reading?_eq, predicate]
  cases Operator.ofCode f.operator with
  | error e => simp [Except.map, Except.toOption]
  | ok op => simp [Except.map, Except.toOption, eq_comm]

theorem predicate_eq_error {e : Failure} :
    f.predicate separator = .error e ↔ f.IsUnsupported ∧ e = .unsupportedOperator f.operator := by
  rw [IsUnsupported, ← Operator.ofCode_eq_error, predicate]
  cases Operator.ofCode f.operator <;> simp [Except.map]

theorem predicate_of_code (separator : Char) {op : Operator} (h : f.operator = op.code) :
    f.predicate separator = .ok ⟨f.test separator op, f.connective⟩ := by
  rw [predicate, h, Operator.ofCode_code]
  rfl

end Filter

end Listing
