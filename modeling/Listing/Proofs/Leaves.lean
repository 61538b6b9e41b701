import Listing.Proofs.Scripts

namespace Listing

/-- What encloses steps, with the number of steps that stand in it. -/
inductive Frame
  | group (connective : Connective) (size : ℕ)
  | existing (chain : String) (connective : Connective) (size : ℕ)
  | load (chain : String) (size : ℕ)
  deriving DecidableEq

/-- A predicate of a script, or the failure that stands in its place, with all that encloses it
from the outside inwards. -/
structure Leaf where
  trail : List Frame
  compiled : Except Failure Predicate

namespace Leaf

def within (frame : Frame) (leaf : Leaf) : Leaf := ⟨frame :: leaf.trail, leaf.compiled⟩

def failure? (leaf : Leaf) : Option Failure :=
  match leaf.compiled with
  | .error f => some f
  | .ok _ => none

theorem failure?_eq_some {leaf : Leaf} {f : Failure} :
    leaf.failure? = some f ↔ leaf.compiled = .error f := by
  unfold failure?
  cases leaf.compiled <;> simp

theorem findSome?_within (frame : Frame) (leaves : List Leaf) :
    (leaves.map (within frame)).findSome? failure? = leaves.findSome? failure? := by
  rw [List.findSome?_map]
  rfl

end Leaf

namespace Step

mutual

def leaves : Step → List Leaf
  | .restrict p => [⟨[], .ok p⟩]
  | .fail f => [⟨[], .error f⟩]
  | .group c scope => (leavesAll scope).map (.within (.group c scope.length))
  | .existing chain c scope => (leavesAll scope).map (.within (.existing chain c scope.length))
  | .load includes => includesLeaves includes
  | _ => []

def leavesAll : List Step → List Leaf
  | [] => []
  | step :: more => leaves step ++ leavesAll more

def includeLeaves : Include Step → List Leaf
  | .plain _ => []
  | .scoped chain scope => (leavesAll scope).map (.within (.load chain scope.length))

def includesLeaves : List (Include Step) → List Leaf
  | [] => []
  | first :: more => includeLeaves first ++ includesLeaves more

end

mutual

theorem failure?_eq : ∀ step : Step, failure? step = (leaves step).findSome? Leaf.failure?
  | .restrict _ => rfl
  | .fail _ => rfl
  | .group _ scope => by
    rw [failure?, leaves, Leaf.findSome?_within, firstFailure?_eq scope]
  | .existing _ _ scope => by
    rw [failure?, leaves, Leaf.findSome?_within, firstFailure?_eq scope]
  | .load includes => by rw [failure?, leaves, includesFailure?_eq includes]
  | .order _ => rfl
  | .limit _ => rfl
  | .offset _ => rfl
  | .tableAt _ => rfl
  | .countRows => rfl

theorem firstFailure?_eq : ∀ steps : List Step,
    firstFailure? steps = (leavesAll steps).findSome? Leaf.failure?
  | [] => rfl
  | step :: more => by
    rw [firstFailure?, leavesAll, List.findSome?_append, failure?_eq step, firstFailure?_eq more]

theorem includeFailure?_eq : ∀ i : Include Step,
    includeFailure? i = (includeLeaves i).findSome? Leaf.failure?
  | .plain _ => rfl
  | .scoped _ scope => by
    rw [includeFailure?, includeLeaves, Leaf.findSome?_within, firstFailure?_eq scope]

theorem includesFailure?_eq : ∀ includes : List (Include Step),
    includesFailure? includes = (includesLeaves includes).findSome? Leaf.failure?
  | [] => rfl
  | i :: more => by
    rw [includesFailure?, includesLeaves, List.findSome?_append, includeFailure?_eq i,
      includesFailure?_eq more]

end

theorem leavesAll_eq (steps : List Step) : leavesAll steps = steps.flatMap leaves := by
  induction steps with
  | nil => rfl
  | cons step more ih => rw [leavesAll, ih, List.flatMap_cons]

theorem leavesAll_append (steps more : List Step) :
    leavesAll (steps ++ more) = leavesAll steps ++ leavesAll more := by
  simp only [leavesAll_eq, List.flatMap_append]

theorem includesLeaves_eq (includes : List (Include Step)) :
    includesLeaves includes = includes.flatMap includeLeaves := by
  induction includes with
  | nil => rfl
  | cons i more ih => rw [includesLeaves, ih, List.flatMap_cons]

end Step

/-- The filter as it is compiled: a column behind relations is one of the table they lead to. -/
def Filter.placed (tables : String → String) (f : Filter) : Filter :=
  if f.IsRelated then { f with field := Path.qualify (tables f.chain) f.leaf } else f.onListing

namespace Request

variable (separator : Char) (tables : String → String) (r : Request)

/-- A filter behind a chain stands alone in a group, in the one scope of its chain, in the one
group of its connective. Other filters stand for themselves. -/
def trail (f : Filter) : List Frame :=
  if f.IsRelated then
    [.group f.connective (r.opened f.connective).length,
      .existing f.chain f.connective (r.along f.connective f.chain).length, .group .and 1]
  else []

def leaf (f : Filter) : Leaf := ⟨r.trail f, (f.placed tables).predicate separator⟩

def member (c : Connective) (chain : String) : Step :=
  Script.existingStep separator c chain (tables chain)
    ((r.along c chain).map fun f ↦ { f with field := f.leaf })

def members (c : Connective) : List Step := (r.opened c).map (r.member separator tables c)

end Request

namespace Script

variable (separator : Char) (tables : String → String) (r : Request)

theorem withTables_ok {α : Type} (items : List (String × α)) :
    withTables (.ok ∘ tables) items =
      .ok (items.map fun (chain, item) ↦ (chain, tables chain, item)) := by
  induction items with
  | nil => rfl
  | cons item more ih =>
    simp only [withTables] at ih
    simp only [withTables, List.mapM_cons, ih]
    rfl

theorem relatedSteps_groups (c : Connective) :
    relatedSteps separator (.ok ∘ tables) c (r.groups c) =
      if r.opened c = [] then [] else [.group c (r.members separator tables c)] := by
  simp only [relatedSteps, withTables_ok, r.groups_eq, List.isEmpty_map, List.isEmpty_iff,
    List.map_map, Request.members]
  rfl

theorem leaves_filterStep (f : Filter) :
    (filterStep separator f).leaves = [⟨[], f.predicate separator⟩] := by
  unfold filterStep
  cases f.predicate separator <;> rfl

theorem leaves_existingStep (c : Connective) (chain table : String) (filters : List Filter) :
    (existingStep separator c chain table filters).leaves = filters.map fun f ↦
      ⟨[.existing chain c filters.length, .group .and 1],
        Filter.predicate separator { f with field := Path.qualify table f.field }⟩ := by
  simp only [existingStep, Step.leaves, Step.leavesAll_eq, List.flatMap_map, List.flatMap_cons,
    List.flatMap_nil, List.append_nil, leaves_filterStep, List.map_cons, List.map_nil,
    List.length_map, List.length_singleton, Leaf.within, ← List.map_eq_flatMap, List.map_map]
  rfl

theorem leavesAll_relatedSteps (c : Connective) :
    Step.leavesAll (relatedSteps separator (.ok ∘ tables) c (r.groups c)) =
      ((r.opened c).flatMap (r.along c)).map (r.leaf separator tables) := by
  have halong (chain : String) : ∀ f ∈ r.along c chain,
      r.leaf separator tables f = ⟨[.group c (r.opened c).length,
        .existing chain c (r.along c chain).length, .group .and 1],
        Filter.predicate separator { f with field := Path.qualify (tables chain) f.leaf }⟩ := by
    intro f hf
    obtain ⟨hby, hchain⟩ := List.mem_filter.mp hf
    obtain ⟨-, hr, rfl⟩ := r.mem_relatedBy.mp hby
    obtain rfl : f.chain = chain := by simpa using hchain
    simp only [Request.leaf, Request.trail, Filter.placed, if_pos hr]
  rw [relatedSteps_groups]
  split
  · simp [*, Step.leavesAll]
  · simp only [Step.leavesAll_eq, List.flatMap_singleton, Step.leaves, Request.members,
      Request.member, List.flatMap_map, leaves_existingStep, List.map_flatMap, List.length_map,
      List.map_map]
    refine List.flatMap_congr fun chain _ ↦ (List.map_congr_left fun f hf ↦ ?_).symm
    exact halong chain f hf

theorem leavesAll_includeSteps :
    Step.leavesAll (includeSteps (.ok ∘ tables) r) = [] := by
  have horders (chain : String) (named : List (String × String × List Order)) :
      Step.includeLeaves (includeOf named chain) = [] := by
    unfold includeOf
    split
    · rfl
    · simp [Step.includeLeaves, Step.leavesAll_eq, List.flatMap_map, Step.leaves]
  simp only [includeSteps, withTables_ok]
  split
  · rfl
  · simp only [Step.leavesAll, Step.leaves, Step.includesLeaves_eq, List.flatMap_map, horders]
    simp

/-- A script holds the filters that are not skipped, each once and in its place. -/
theorem leavesAll_ofRequest :
    Step.leavesAll (ofRequest separator (.ok ∘ tables) r).steps =
      r.routed.map (r.leaf separator tables) := by
  have hroots : Step.leavesAll (r.rootFilters.map (filterStep separator)) =
      (r.filters.filter (¬ ·.IsRelated)).map (r.leaf separator tables) := by
    simp only [Step.leavesAll_eq, r.rootFilters_eq, List.flatMap_map, leaves_filterStep,
      ← List.map_eq_flatMap]
    refine List.map_congr_left fun f hf ↦ ?_
    have hr : ¬ f.IsRelated := by simpa using (List.mem_filter.mp hf).2
    simp only [Request.leaf, Request.trail, Filter.placed, if_neg hr]
  have horders : Step.leavesAll (r.rootOrders.map Step.order) = [] := by
    simp [Step.leavesAll_eq, List.flatMap_map, Step.leaves]
  have hpage : Step.leavesAll (pageSteps r.page?) = [] := by
    cases r.page? <;> rfl
  have hand := leavesAll_relatedSteps separator tables r .and
  have hor := leavesAll_relatedSteps separator tables r .or
  simp only [Request.groups] at hand hor
  simp only [ofRequest, Step.leavesAll_append, hroots, horders, hpage, hand, hor,
    leavesAll_includeSteps, List.append_nil, List.nil_append, r.routed_eq, List.map_append,
    List.append_assoc]

end Script

end Listing
