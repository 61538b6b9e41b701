import Listing.Proofs.Readings
import Listing.Proofs.Recorders

namespace Listing

theorem Filter.operator_placed (tables : String → String) (f : Filter) :
    (f.placed tables).operator = f.operator := by
  unfold placed onListing
  split
  · rfl
  · split <;> rfl

theorem Filter.exists_predicate_placed (separator : Char) (tables : String → String) {f : Filter}
    (h : ¬ f.IsUnsupported) : ∃ p, (f.placed tables).predicate separator = .ok p := by
  cases hp : (f.placed tables).predicate separator with
  | ok p => exact ⟨p, rfl⟩
  | error e =>
    have hplaced := (Filter.predicate_eq_error.mp hp).1
    rw [IsUnsupported, operator_placed] at hplaced
    exact absurd hplaced h

namespace Request

variable (separator : Char) (tables : String → String) (r : Request)

theorem failure?_leaf {f : Filter} {e : Failure} :
    (r.leaf separator tables f).failure? = some e ↔
      f.IsUnsupported ∧ e = .unsupportedOperator f.operator := by
  rw [Leaf.failure?_eq_some, leaf, Filter.predicate_eq_error, Filter.IsUnsupported,
    Filter.operator_placed, ← Filter.IsUnsupported]

theorem mem_routed {f : Filter} : f ∈ r.routed ↔ f ∈ r.filters ∧ ¬ r.Skips f := by
  rw [r.routed_perm.mem_iff, List.mem_filter, decide_eq_true_eq]

end Request

namespace Script

variable (separator : Char) (tables : String → String) (r : Request)

theorem unsupported_of_firstFailure? {e : Failure}
    (h : Step.firstFailure? (ofRequest separator (.ok ∘ tables) r).steps = some e) :
    ∃ f ∈ r.filters, ¬ r.Skips f ∧ f.IsUnsupported ∧ e = .unsupportedOperator f.operator := by
  rw [Step.firstFailure?_eq, leavesAll_ofRequest, List.findSome?_map] at h
  obtain ⟨f, hf, he⟩ := List.exists_of_findSome?_eq_some h
  obtain ⟨hmem, hskip⟩ := r.mem_routed.mp hf
  exact ⟨f, hmem, hskip, (r.failure?_leaf separator tables).mp he⟩

theorem firstFailure?_eq_none :
    Step.firstFailure? (ofRequest separator (.ok ∘ tables) r).steps = none ↔
      ∀ f ∈ r.filters, ¬ r.Skips f → ¬ f.IsUnsupported := by
  constructor
  · intro h f hf hskip hop
    rw [Step.firstFailure?_eq, leavesAll_ofRequest, List.findSome?_map] at h
    have hleaf := List.findSome?_eq_none_iff.mp h f (r.mem_routed.mpr ⟨hf, hskip⟩)
    rw [Function.comp_apply, (r.failure?_leaf separator tables).mpr ⟨hop, rfl⟩] at hleaf
    exact Option.some_ne_none _ hleaf
  · intro h
    by_contra hne
    obtain ⟨e, he⟩ := Option.ne_none_iff_exists'.mp hne
    obtain ⟨f, hf, hskip, hop, -⟩ := unsupported_of_firstFailure? separator tables r he
    exact h f hf hskip hop

end Script

theorem record_eq_ok {separator : Char} {names : List (String × String)} {rows : UInt64}
    {r : Request} : (∃ recording, record separator names rows r = .ok recording) ↔
      ∀ f ∈ r.filters, ¬ r.Skips f → ¬ f.IsUnsupported := by
  rw [← Script.firstFailure?_eq_none separator (tableNames names) r, record_eq, Script.record]
  cases Step.firstFailure? (Script.ofRequest separator (.ok ∘ tableNames names) r).steps <;> simp

/-- A filter whose operator is unknown ends a request, wherever it stands, unless it is skipped.
Without a schema behind it, the request ends with the operator of such a filter. -/
theorem unsupported_aborts {r : Request} (separator : Char)
    (h : ∃ f ∈ r.filters, ¬ r.Skips f ∧ f.IsUnsupported) :
    (∀ source table page, (plan separator source table r).result ≠ .ok page) ∧
      ∀ names rows, ∃ f ∈ r.filters, ¬ r.Skips f ∧ f.IsUnsupported ∧
        record separator names rows r = .error (.unsupportedOperator f.operator) := by
  have hfails (tables : String → String) :
      Step.firstFailure? (Script.ofRequest separator (.ok ∘ tables) r).steps ≠ none := by
    rw [ne_eq, Script.firstFailure?_eq_none]
    push Not
    exact h
  refine ⟨fun source table page hok ↦ ?_, fun names rows ↦ ?_⟩
  · have hscript := Step.firstFailure?_of_runAll source _ _ (plan_ok hok rfl).1
    rw [Script.ofRequest_found hscript] at hscript
    exact hfails _ hscript
  · obtain ⟨e, he⟩ := Option.ne_none_iff_exists'.mp (hfails (tableNames names))
    obtain ⟨f, hf, hskip, hop, rfl⟩ := Script.unsupported_of_firstFailure? separator _ r he
    refine ⟨f, hf, hskip, hop, ?_⟩
    simp only [record_eq, Script.record, he]

def unread : Request where
  filters := [{ field := "title", operator := "eq", value := "x" },
    { field := "author.age", operator := "xyz", value := "1", connective := .or }]

theorem unsupported_aborts_unread :
    (∀ source page, (plan '|' source "posts" unread).result ≠ .ok page) ∧
      record '|' [("author", "users")] 0 unread = .error (.unsupportedOperator "xyz") := by
  have hsome : ∃ f ∈ unread.filters, ¬ unread.Skips f ∧ f.IsUnsupported := by decide +kernel
  obtain ⟨hplan, hrecord⟩ := unsupported_aborts '|' hsome
  refine ⟨fun source ↦ hplan source "posts", ?_⟩
  obtain ⟨f, hf, -, hop, he⟩ := hrecord [("author", "users")] 0
  rcases List.mem_cons.mp hf with rfl | hf
  · exact absurd hop (by decide)
  · obtain rfl := List.mem_singleton.mp hf
    exact he

def skipping : Request where
  filters := [{ field := "author.name", operator := "eq", value := "x" },
    { field := "author.age", operator := "xyz", value := "1", connective := .or }]

theorem not_always_aborts : (∃ f ∈ skipping.filters, f.IsUnsupported) ∧
    (∃ recording, record '|' [] 0 skipping = .ok recording) ∧
      ∃ page, (plan '|' ⟨Schema.catalog ⟨[⟨"posts", "author", "users", "author_id", "id"⟩]⟩,
        fun _ ↦ .ok 0⟩ "posts" skipping).result = .ok page := by
  refine ⟨by decide, ?_, _, plan_ok_iff.mpr rfl⟩
  exact record_eq_ok.mpr (by decide +kernel)

end Listing
