import Listing.Proofs.Orders

namespace Listing

namespace Request

/-- The parts that a script takes from a request: the filters on the listing itself, those of each
connective behind relations, the orders on the listing itself and those behind relations. How they
are mixed is left open. -/
structure SameParts (r r' : Request) : Prop where
  roots : r.filters.filter (¬ ·.IsRelated) = r'.filters.filter (¬ ·.IsRelated)
  related : ∀ c, r.relatedBy c = r'.relatedBy c
  rootOrders : r.orders.filter ('.' ∉ ·.field.toList) = r'.orders.filter ('.' ∉ ·.field.toList)
  relatedOrders :
    r.orders.filter ('.' ∈ ·.field.toList) = r'.orders.filter ('.' ∈ ·.field.toList)
  includes : r.includes = r'.includes
  window? : r.window? = r'.window?

namespace SameParts

variable {r r' : Request} (h : r.SameParts r')
include h

theorem opened_eq (c : Connective) : r.opened c = r'.opened c := by
  have hchains (c : Connective) : r.chainsBy c = r'.chainsBy c := by
    rw [chainsBy, chainsBy, h.related]
  cases c with
  | and => exact hchains .and
  | or => simp only [opened, hchains]

theorem groups_eq (c : Connective) : r.groups c = r'.groups c := by
  have halong (chain : String) : r.along c chain = r'.along c chain := by
    rw [along, along, h.related]
  simp only [Request.groups_eq, h.opened_eq, halong]

theorem rootFilters_eq : r.rootFilters = r'.rootFilters := by
  rw [r.rootFilters_eq, r'.rootFilters_eq, h.roots]

theorem rootOrders_eq : r.rootOrders = r'.rootOrders := by
  rw [r.rootOrders_eq, r'.rootOrders_eq, h.rootOrders]

theorem relatedOrders_eq : r.relatedOrders = r'.relatedOrders := by
  have hitems (r : Request) : r.orders.filterMap (·.place.related?) =
      (r.orders.filter ('.' ∈ ·.field.toList)).filterMap (·.place.related?) := by
    rw [List.filterMap_filter]
    refine List.filterMap_congr fun o _ ↦ ?_
    rw [Order.place_eq]
    by_cases hdot : '.' ∈ o.field.toList
    · simp [hdot]
    · simp [hdot, Place.related?]
  rw [Request.relatedOrders, Request.relatedOrders, hitems, h.relatedOrders, ← hitems]

theorem loadedChains_eq : r.loadedChains = r'.loadedChains := by
  rw [loadedChains, loadedChains, includedChains, includedChains, h.includes, h.relatedOrders_eq]

end SameParts

end Request

theorem Script.ofRequest_parts (separator : Char) (tableAt : String → Except Failure String)
    {r r' : Request} (h : r.SameParts r') :
    ofRequest separator tableAt r = ofRequest separator tableAt r' := by
  have hpage : r.page? = r'.page? := by rw [Request.page?, Request.page?, h.window?]
  have hand := h.groups_eq .and
  have hor := h.groups_eq .or
  have hincludes : includeSteps tableAt r = includeSteps tableAt r' := by
    rw [includeSteps, includeSteps, h.loadedChains_eq, h.relatedOrders_eq]
  simp only [Request.groups] at hand hor
  rw [ofRequest, ofRequest, h.rootFilters_eq, h.rootOrders_eq, hand, hor, hincludes, hpage]

/-- However the parts of a request are mixed, it gets the same page or the same failure, and the
counter is asked for the same; and so it is with a recording. -/
theorem interleaved {separator : Char} {r r' : Request} (h : r.SameParts r') :
    (∀ source table, plan separator source table r = plan separator source table r') ∧
      ∀ names rows, record separator names rows r = record separator names rows r' := by
  constructor
  · intro source table
    rw [plan_eq, plan_eq, Script.ofRequest_parts separator _ h]
  · intro names rows
    rw [record_eq, record_eq, Script.ofRequest_parts separator _ h]

def sorted : Request where
  filters := [{ field := "title", operator := "ct", value := "lean" },
    { field := "author.posts", operator := "has", connective := .or },
    { field := "author.name", operator := "eq", value := "x" },
    { field := "author.age", operator := "gt", value := "1" },
    { field := "blog_tags.label", operator := "sw", value := "p", connective := .or },
    { field := "author.email", operator := "null", connective := .or }]
  orders := [{ field := "title" }, { field := "state" }, { field := "author.name" },
    { field := "blog_tags.label" }]

def shuffled : Request where
  filters := [{ field := "blog_tags.label", operator := "sw", value := "p", connective := .or },
    { field := "author.name", operator := "eq", value := "x" },
    { field := "title", operator := "ct", value := "lean" },
    { field := "author.email", operator := "null", connective := .or },
    { field := "author.age", operator := "gt", value := "1" },
    { field := "author.posts", operator := "has", connective := .or }]
  orders := [{ field := "author.name" }, { field := "title" }, { field := "blog_tags.label" },
    { field := "state" }]

theorem interleaved_shuffled : sorted ≠ shuffled ∧ sorted.SameParts shuffled ∧
    (∃ page, (plan '|' ⟨shelf, fun _ ↦ .ok 2⟩ "posts" sorted).result = .ok page ∧
      (plan '|' ⟨shelf, fun _ ↦ .ok 2⟩ "posts" shuffled).result = .ok page) ∧
    (∃ recording, record '|' [("author", "users")] 2 sorted = .ok recording ∧
      record '|' [("author", "users")] 2 shuffled = .ok recording) ∧
    (plan '|' ⟨Schema.catalog {}, fun _ ↦ .ok 2⟩ "posts" shuffled).result =
      .error (.unknownRelation "posts" "author") := by
  have hparts : sorted.SameParts shuffled := by
    constructor
    case related =>
      intro c
      cases c <;> decide +kernel
    all_goals decide +kernel
  obtain ⟨hplan, hrecord⟩ := interleaved hparts
  obtain ⟨page, hpage⟩ : ∃ page,
      (plan '|' ⟨shelf, fun _ ↦ .ok 2⟩ "posts" sorted).result = .ok page :=
    ⟨_, plan_ok_iff.mpr rfl⟩
  obtain ⟨recording, hrecording⟩ : ∃ recording,
      record '|' [("author", "users")] 2 sorted = .ok recording :=
    record_eq_ok.mpr (by decide +kernel)
  refine ⟨by decide, hparts, ⟨page, hpage, hplan _ _ ▸ hpage⟩, ⟨recording, hrecording, ?_⟩, ?_⟩
  · exact hrecord _ _ ▸ hrecording
  · rw [← hplan, plan_eq]
    rfl

end Listing
