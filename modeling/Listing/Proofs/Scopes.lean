import Listing.Proofs.Clauses
import Listing.Proofs.Walks

namespace Listing

open Sql

namespace Step

variable {source : Source}

/-- A step is done as a whole or not at all. It adds one clause at the end, or none if it is idle,
and what it adds, asks for and fails with depends on nothing of the query but its table. -/
structure Atomic (source : Source) (step : Step) (d : Draft) : Prop where
  failed : ∀ f, (run source step d).failure? = some f → (run source step d).draft = d
  idle : step.IsIdle source d.table → (run source step d).draft = d
  busy : (run source step d).failure? = none → ¬ step.IsIdle source d.table →
    ∃ clause, (run source step d).draft = { d with clauses := d.clauses ++ [clause] }
  isolated : ∃ added asked failure?, ∀ d' : Draft, d'.table = d.table →
    run source step d' = ⟨{ d' with clauses := d'.clauses ++ added }, asked, failure?⟩

theorem IsRestriction.atomic {step : Step} (h : step.IsRestriction) (source : Source)
    (d : Draft) : step.Atomic source d := by
  obtain ⟨e, he⟩ := h.exists_addsOnce source d.table
  have hrun := he.run d rfl
  constructor
  case failed => exact fun f ↦ he.draft_of_failure
  case idle =>
    intro hidle
    rw [hrun, Effect.on, he.idle hidle, d.append_nil]
  case busy =>
    intro hn hbusy
    rw [hrun] at hn ⊢
    obtain ⟨clause, hclause⟩ := he.busy hn hbusy
    exact ⟨clause, by rw [Effect.on, hclause]; rfl⟩
  case isolated => exact ⟨e.added, e.asked, e.failure?, he.run⟩

def nextDraft : Draft where
  table := "posts"
  clauses := [⟨.or, .single (.atom (.null ⟨"posts", "state"⟩))⟩]
  orders := [{ field := "title" }]
  limit? := some 3

def tangled : List Step := [.restrict ⟨.null "title", .and⟩, .order { field := "state" }, .limit 5,
  .load [.plain "author"], .group .or [.offset 1],
  .existing "author" .or [.restrict ⟨.notNull "name", .and⟩, .load [.plain "company"],
    .group .and [.restrict ⟨.null "email", .and⟩, .tableAt "company.owner"]]]

theorem atomic_tangled : (group .or tangled).IsRestriction ∧
    (run ⟨shelf, fun _ ↦ .ok 2⟩ (.group .or tangled) nextDraft).failure? =
      some (.unknownRelation "companies" "owner") ∧
    (run ⟨shelf, fun _ ↦ .ok 2⟩ (.group .or tangled) nextDraft).draft = nextDraft ∧
    (∃ clause, (run ⟨shelf, fun _ ↦ .ok 2⟩ (.group .or tangled.dropLast) nextDraft).draft =
      { nextDraft with clauses := nextDraft.clauses ++ [clause] }) ∧
    (run ⟨shelf, fun _ ↦ .ok 2⟩ (.group .or [.limit 5]) nextDraft).draft = nextDraft := by
  have hatomic (scope : List Step) := (IsRestriction.group .or scope).atomic
    ⟨shelf, fun _ ↦ .ok 2⟩ nextDraft
  have hfailure : (run ⟨shelf, fun _ ↦ .ok 2⟩ (.group .or tangled) nextDraft).failure? =
      some (.unknownRelation "companies" "owner") := by decide +kernel
  refine ⟨.group .or tangled, hfailure, (hatomic tangled).failed _ hfailure, ?_, ?_⟩
  · refine (hatomic tangled.dropLast).busy (by decide +kernel) fun hidle ↦ ?_
    exact absurd (congrArg List.length hidle) (by decide +kernel)
  · exact (hatomic [.limit 5]).idle rfl

/-- To load is not atomic: what has been loaded up to the failure stays. -/
example : (run ⟨shelf, fun _ ↦ .ok 2⟩ (.load [.plain "author", .plain "editor"])
      nextDraft).failure? = some (.unknownRelation "posts" "editor") ∧
    (run ⟨shelf, fun _ ↦ .ok 2⟩ (.load [.plain "author", .plain "editor"])
      nextDraft).draft.loads.map (·.path) = ["author"] := by decide +kernel

end Step

end Listing
