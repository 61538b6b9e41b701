import Listing.Proofs.Operators

namespace Listing

namespace Step

mutual

/-- The chains of which steps ask for the existence of rows, wherever they stand. -/
def openings : Step → List String
  | .group _ scope => openingsAll scope
  | .existing chain _ scope => chain :: openingsAll scope
  | .load includes => includesOpenings includes
  | _ => []

def openingsAll : List Step → List String
  | [] => []
  | step :: more => openings step ++ openingsAll more

def includeOpenings : Include Step → List String
  | .plain _ => []
  | .scoped _ scope => openingsAll scope

def includesOpenings : List (Include Step) → List String
  | [] => []
  | first :: more => includeOpenings first ++ includesOpenings more

end

theorem openingsAll_eq (steps : List Step) : openingsAll steps = steps.flatMap openings := by
  induction steps with
  | nil => rfl
  | cons step more ih => rw [openingsAll, ih, List.flatMap_cons]

theorem includesOpenings_eq (includes : List (Include Step)) :
    includesOpenings includes = includes.flatMap includeOpenings := by
  induction includes with
  | nil => rfl
  | cons i more ih => rw [includesOpenings, ih, List.flatMap_cons]

def connective? : Step → Option Connective
  | .group c _ => some c
  | _ => none

end Step

/-- What a recording tests for a filter: what its operator asks of its own column, rows along the
chain that its path names, or what its operator asks of a column of the table that its path leads
to. -/
inductive Filter.Stands (separator : Char) (tables : String → String) (f : Filter) : Test → Prop
  | column {t : Test} (hfield : '.' ∉ f.field.toList) (hreading : f.reading? separator = some t) :
    Stands separator tables f t
  | chain (hfield : '.' ∈ f.field.toList) (hop : f.operator = "has") :
    Stands separator tables f (.has f.chain)
  | related {t : Test} (hrelated : f.IsRelated)
    (hreading : Filter.reading? separator
      { f with field := Path.qualify (tables f.chain) f.leaf } = some t) :
    Stands separator tables f t

/-- What a recording holds of the filters of a request. All of them but those that are skipped
are compiled, each once and in its place, and in each place they keep their order. At the top
there is at most one group of each connective, and its chains are opened once, in the order in
which they first occur. -/
structure Recording.Keeps (separator : Char) (tables : String → String) (r : Request)
    (test : Filter → Test) (recording : Recording) : Prop where
  stands : ∀ f ∈ r.filters, ¬ r.Skips f → f.Stands separator tables (test f)
  compiled : ∀ f ∈ r.filters, ¬ r.Skips f →
    (f.placed tables).predicate separator = .ok ⟨test f, f.connective⟩
  perm : (Step.leavesAll recording.steps).Perm
    ((r.filters.filter (¬ r.Skips ·)).map fun f ↦ ⟨r.trail f, .ok ⟨test f, f.connective⟩⟩)
  ordered : ∀ trail : List Frame, (Step.leavesAll recording.steps).filter (·.trail = trail) =
    ((r.filters.filter (¬ r.Skips ·)).filter (r.trail · = trail)).map
      fun f ↦ ⟨trail, .ok ⟨test f, f.connective⟩⟩
  groups : recording.steps.filterMap Step.connective? = [.and, .or].filter (r.opened · ≠ [])
  openings : Step.openingsAll recording.steps = r.opened .and ++ r.opened .or
  once : (Step.openingsAll recording.steps).Nodup

theorem Filter.stands_placed {separator : Char} {tables : String → String} {f : Filter} {t : Test}
    (h : (f.placed tables).reading? separator = some t) : f.Stands separator tables t := by
  unfold placed onListing at h
  by_cases hrelated : f.IsRelated
  · rw [if_pos hrelated] at h
    exact .related hrelated h
  rw [if_neg hrelated] at h
  by_cases hdot : '.' ∈ f.field.toList
  · have hop : f.operator = "has" := by_contra fun hop ↦ hrelated ⟨hdot, hop⟩
    rw [if_pos hdot, reading?_has separator hop] at h
    obtain rfl := Option.some.inj h
    exact .chain hdot hop
  · rw [if_neg hdot] at h
    exact .column hdot h

theorem Filter.connective_placed (tables : String → String) (f : Filter) :
    (f.placed tables).connective = f.connective := by
  unfold placed onListing
  split
  · rfl
  · split <;> rfl

namespace Request

variable (r : Request)

theorem trail_eq_iff {f g : Filter} : r.trail f = r.trail g ↔ f.key = g.key := by
  by_cases hf : f.IsRelated <;> by_cases hg : g.IsRelated <;> simp [trail, Filter.key, hf, hg]
  constructor
  · rintro ⟨⟨hc, -⟩, hchain, -⟩
    exact ⟨hc, hchain⟩
  · rintro ⟨hc, hchain⟩
    simp only [hc, hchain, and_self]

theorem routed_filter_trail (trail : List Frame) : r.routed.filter (r.trail · = trail) =
    (r.filters.filter (¬ r.Skips ·)).filter (r.trail · = trail) := by
  by_cases h : ∃ g ∈ r.routed, r.trail g = trail
  · obtain ⟨g, -, rfl⟩ := h
    simp only [trail_eq_iff]
    exact r.routed_filter_key g.key
  · -- Then the trail is that of no filter, and both sides are empty.
    push Not at h
    have hnone : ∀ f ∈ r.filters.filter (¬ r.Skips ·), r.trail f ≠ trail :=
      fun f hf ↦ h f (r.routed_perm.mem_iff.mpr hf)
    rw [List.filter_eq_nil_iff.mpr fun f hf ↦ by simpa using h f hf,
      List.filter_eq_nil_iff.mpr fun f hf ↦ by simpa using hnone f hf]

theorem nodup_openings : (r.opened .and ++ r.opened .or).Nodup := by
  refine (r.nodup_opened .and).append (r.nodup_opened .or) fun chain hand hor ↦ ?_
  exact absurd hand (by simpa [opened] using (List.mem_filter.mp hor).2)

end Request

namespace Script

variable (separator : Char) (tables : String → String) (r : Request)

theorem relatedSteps_connective? (c : Connective) :
    (relatedSteps separator (.ok ∘ tables) c (r.groups c)).filterMap Step.connective? =
      [c].filter (r.opened · ≠ []) := by
  rw [relatedSteps_groups]
  by_cases h : r.opened c = [] <;> simp [h, Step.connective?]

theorem openings_filterStep (f : Filter) : (filterStep separator f).openings = [] := by
  unfold filterStep
  cases f.predicate separator <;> rfl

theorem relatedSteps_openings (c : Connective) :
    Step.openingsAll (relatedSteps separator (.ok ∘ tables) c (r.groups c)) = r.opened c := by
  have hexisting (chain table : String) (filters : List Filter) :
      (existingStep separator c chain table filters).openings = [chain] := by
    simp [existingStep, Step.openings, Step.openingsAll_eq, List.flatMap_map,
      openings_filterStep]
  rw [relatedSteps_groups]
  by_cases h : r.opened c = []
  · simp [h, Step.openingsAll]
  · simp [h, Step.openingsAll_eq, Step.openings, Request.members, Request.member, List.flatMap_map,
      hexisting]

theorem connective?_ofRequest :
    (ofRequest separator (.ok ∘ tables) r).steps.filterMap Step.connective? =
      [.and, .or].filter (r.opened · ≠ []) := by
  have hfilter (f : Filter) : (filterStep separator f).connective? = none := by
    unfold filterStep
    cases f.predicate separator <;> rfl
  have hroots : (r.rootFilters.map (filterStep separator)).filterMap Step.connective? = [] := by
    simp [List.filterMap_map, hfilter]
  have horders : (r.rootOrders.map Step.order).filterMap Step.connective? = [] := by
    simp [List.filterMap_map, Step.connective?]
  have hincludes : (includeSteps (.ok ∘ tables) r).filterMap Step.connective? = [] := by
    simp only [includeSteps, withTables_ok]
    split <;> rfl
  have hpage : (pageSteps r.page?).filterMap Step.connective? = [] := by
    cases r.page? <;> rfl
  have hand := relatedSteps_connective? separator tables r .and
  have hor := relatedSteps_connective? separator tables r .or
  simp only [Request.groups] at hand hor
  simp only [ofRequest, List.filterMap_append, hroots, horders, hincludes, hpage, hand, hor,
    List.nil_append, List.append_nil, ← List.filter_append, List.singleton_append]

theorem openings_ofRequest :
    Step.openingsAll (ofRequest separator (.ok ∘ tables) r).steps =
      r.opened .and ++ r.opened .or := by
  have hload (chain : String) (named : List (String × String × List Order)) :
      Step.includeOpenings (includeOf named chain) = [] := by
    unfold includeOf
    split
    · rfl
    · simp [Step.includeOpenings, Step.openingsAll_eq, List.flatMap_map, Step.openings]
  have hincludes : Step.openingsAll (includeSteps (.ok ∘ tables) r) = [] := by
    simp only [includeSteps, withTables_ok]
    split
    · rfl
    · simp [Step.openingsAll, Step.openings, Step.includesOpenings_eq, List.flatMap_map, hload]
  have hroots : Step.openingsAll (r.rootFilters.map (filterStep separator)) = [] := by
    simp [Step.openingsAll_eq, List.flatMap_map, openings_filterStep]
  have horders : Step.openingsAll (r.rootOrders.map Step.order) = [] := by
    simp [Step.openingsAll_eq, List.flatMap_map, Step.openings]
  have hpage : Step.openingsAll (pageSteps r.page?) = [] := by
    cases r.page? <;> rfl
  have hand := relatedSteps_openings separator tables r .and
  have hor := relatedSteps_openings separator tables r .or
  simp only [Request.groups] at hand hor
  simp only [Step.openingsAll_eq] at hroots horders hincludes hpage hand hor ⊢
  simp only [ofRequest, List.flatMap_append, hroots, horders, hincludes, hpage, hand, hor,
    List.nil_append, List.append_nil]

end Script

theorem Request.exists_readings (separator : Char) (tables : String → String) {r : Request}
    (h : ∀ f ∈ r.filters, ¬ r.Skips f → ¬ f.IsUnsupported) : ∃ test : Filter → Test,
      ∀ f ∈ r.filters, ¬ r.Skips f → (f.placed tables).reading? separator = some (test f) := by
  refine ⟨fun f ↦ ((f.placed tables).reading? separator).getD (.has f.field),
    fun f hf hskip ↦ ?_⟩
  obtain ⟨p, hp⟩ := Filter.exists_predicate_placed separator tables (h f hf hskip)
  simp only [(Filter.predicate_eq_ok.mp hp).1, Option.getD_some]

/-- No filter is lost, doubled, changed or put in another place. -/
theorem record_keeps {separator : Char} {names : List (String × String)} {rows : UInt64}
    {r : Request} {recording : Recording} (h : record separator names rows r = .ok recording) :
    ∃ test, recording.Keeps separator (tableNames names) r test := by
  obtain ⟨test, hreading⟩ :=
    r.exists_readings separator (tableNames names) (record_eq_ok.mp ⟨recording, h⟩)
  have hcompiled : ∀ f ∈ r.filters, ¬ r.Skips f →
      (f.placed (tableNames names)).predicate separator = .ok ⟨test f, f.connective⟩ :=
    fun f hf hskip ↦ Filter.predicate_eq_ok.mpr ⟨hreading f hf hskip, (f.connective_placed _).symm⟩
  have hleaf : ∀ f ∈ r.filters.filter (¬ r.Skips ·), r.leaf separator (tableNames names) f =
      ⟨r.trail f, .ok ⟨test f, f.connective⟩⟩ := by
    intro f hf
    obtain ⟨hmem, hskip⟩ := List.mem_filter.mp hf
    exact congrArg (Leaf.mk _) (hcompiled f hmem (of_decide_eq_true hskip))
  refine ⟨test, ?_⟩
  constructor
  case stands => exact fun f hf hskip ↦ Filter.stands_placed (hreading f hf hskip)
  case compiled => exact hcompiled
  case perm =>
    rw [record_steps h, Script.leavesAll_ofRequest, ← List.map_congr_left hleaf]
    exact r.routed_perm.map _
  case ordered =>
    intro trail
    rw [record_steps h, Script.leavesAll_ofRequest, List.filter_map]
    refine (congrArg _ (r.routed_filter_trail trail)).trans ?_
    refine List.map_congr_left fun f hf ↦ ?_
    obtain ⟨hmem, htrail⟩ := List.mem_filter.mp hf
    rw [hleaf f hmem, of_decide_eq_true htrail]
  case groups => rw [record_steps h, Script.connective?_ofRequest]
  case openings => rw [record_steps h, Script.openings_ofRequest]
  case once =>
    rw [record_steps h, Script.openings_ofRequest]
    exact r.nodup_openings

def mixed : Request where
  filters := [{ field := "title", operator := "ct", value := "lean" },
    { field := "author.name", operator := "eq", value := "x" },
    { field := "author.age", operator := "gt", value := "1", connective := .or },
    { field := "blog_tags.label", operator := "sw", value := "p", connective := .or },
    { field := "author.posts", operator := "has", connective := .or }]

theorem record_keeps_mixed : ∃ recording,
    record '|' [("author", "users")] 0 mixed = .ok recording ∧
      (∃ test, recording.Keeps '|' (tableNames [("author", "users")]) mixed test ∧
        test { field := "author.name", operator := "eq", value := "x" } =
          .compare "users.name" .equal "x") ∧
      Step.leavesAll recording.steps =
        [⟨[], .ok ⟨.compare "title" .like "%lean%", .and⟩⟩,
          ⟨[], .ok ⟨.has "author", .or⟩⟩,
          ⟨[.group .and 1, .existing "author" .and 1, .group .and 1],
            .ok ⟨.compare "users.name" .equal "x", .and⟩⟩,
          ⟨[.group .or 1, .existing "blogTags" .or 1, .group .and 1],
            .ok ⟨.compare "blogTags.label" .like "p%", .or⟩⟩] ∧
      recording.steps.filterMap Step.connective? = [.and, .or] ∧
      Step.openingsAll recording.steps = ["author", "blogTags"] := by
  obtain ⟨recording, hok⟩ : ∃ recording, record '|' [("author", "users")] 0 mixed = .ok recording :=
    record_eq_ok.mpr (by decide +kernel)
  obtain ⟨test, hkeeps⟩ := record_keeps hok
  refine ⟨recording, hok, ⟨test, hkeeps, ?_⟩, ?_, hkeeps.groups.trans ?_,
    hkeeps.openings.trans ?_⟩
  · have hcompiled := hkeeps.compiled { field := "author.name", operator := "eq", value := "x" }
      (by decide) (by decide +kernel)
    exact congrArg Predicate.test (Except.ok.inj hcompiled).symm
  · rw [record_steps hok]
    rfl
  · decide +kernel
  · decide +kernel

end Listing
