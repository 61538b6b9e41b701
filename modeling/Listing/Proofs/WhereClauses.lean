import Listing.Proofs.Rendering

namespace Listing

open Sql

namespace Sql

namespace Expr

theorem Reads.ne_nil {level : Level} {ts : List Token} {e : Expr} (h : Reads level ts e) :
    ts ≠ [] := by
  induction h with
  | test a => exact List.cons_ne_nil _ _
  | existing table body => exact List.cons_ne_nil _ _
  | enclosed _ _ => exact List.cons_ne_nil _ _
  | unit _ ih => exact ih
  | and _ _ _ _ => exact List.append_ne_nil_of_right_ne_nil _ (List.cons_ne_nil _ _)
  | conjunction _ ih => exact ih
  | or _ _ _ _ => exact List.append_ne_nil_of_right_ne_nil _ (List.cons_ne_nil _ _)

theorem truth_const (e : Expr) (b : Truth) : e.truth (fun _ ↦ b) = b := by
  induction e with
  | leaf t => rfl
  | joined c l r ihl ihr =>
    cases c with
    | and => rw [truth, ihl, ihr, inf_idem]
    | or => rw [truth, ihl, ihr, sup_idem]

end Expr

variable {catalog : Catalog} {j : Junction}

theorem Junction.Normal.tokens_ne_nil (h : j.Normal catalog) : j.tokens ≠ [] := by
  obtain ⟨e, hread, -⟩ := h.read
  have hreads := (hread e).mpr rfl
  exact hreads.ne_nil

theorem Junction.Normal.given_const (h : j.Normal catalog) (b : Truth) :
    j.given (fun _ ↦ b) = b := by
  obtain ⟨e, -, htruth⟩ := h.read
  rw [← htruth, Expr.truth_const]

end Sql

/-- The drafts that steps lead to, whether they succeed or fail, in scopes as well: a scope leaves
any draft of its table, since it may go on after a step that fails. -/
inductive Draft.Attainable (source : Source) : Draft → Prop
  | fresh (table : String) : Attainable source { table }
  | step (step : Step) {d : Draft} : Attainable source d →
      Attainable source (step.run source d).draft
  | group {d inner : Draft} (c : Connective) : Attainable source d → Attainable source inner →
      inner.table = d.table → Attainable source (d.pushGroup c inner)
  | existing {d inner : Draft} {chain : String} {hops : List Relation} (c : Connective) :
      Attainable source d → source.schema.resolve d.table chain = .ok hops →
      Attainable source inner → inner.table = Catalog.lastTable d.table hops →
      Attainable source (d.push c (Draft.existence hops inner.condition?))
  | scope {d inner : Draft} {chain : String} {hops : List Relation} :
      Attainable source d → source.schema.resolve d.table chain = .ok hops →
      Attainable source inner → inner.table = Catalog.lastTable d.table hops →
      Attainable source (d.loadScope (Draft.route chain hops) inner)

theorem Draft.Attainable.built {source : Source} {d : Draft} (h : d.Attainable source) :
    d.Built source := by
  induction h with
  | fresh table => exact .fresh table
  | step step _ ih => exact Step.built_run step ih
  | group c _ _ htable ih ihinner => exact ih.group c ihinner htable
  | existing c _ hr _ htable ih ihinner => exact ih.existing c hr ihinner htable
  | scope _ hr _ htable ih ihinner => exact ih.scope hr ihinner htable

theorem Draft.Reachable.attainable {source : Source} {d : Draft} (h : d.Reachable source) :
    d.Attainable source := by
  induction h with
  | fresh table => exact .fresh table
  | step step _ ih => exact ih.step step

/-- All conditions of a draft are normal, as they stand in its clauses and as its queries have
them, down to the innermost existences. All that is asked of rows is written, and it depends on
the tests and existences in it. -/
structure Draft.HasNormalConditions (catalog : Catalog) (d : Draft) : Prop where
  clauses : ∀ clause ∈ d.clauses, clause.condition.Normal catalog
  queries : ∀ s, d.Queries s → ∀ j ∈ s.junctions, j.Normal catalog
  written : ∀ s, d.Queries s → ∀ j ∈ s.junctions, j.tokens ≠ []
  depends : ∀ s, d.Queries s → ∀ j ∈ s.junctions, ∀ b, j.given (fun _ ↦ b) = b

theorem Draft.Attainable.hasNormalConditions {source : Source} {d : Draft}
    (h : d.Attainable source) : d.HasNormalConditions source.schema := by
  have hnormal := h.built.normal
  constructor
  case clauses => exact hnormal.clauses
  case queries =>
    intro s hs
    exact hnormal.junctions hs
  case written =>
    intro s hs j hj
    have hj' := hnormal.junctions hs j hj
    exact hj'.tokens_ne_nil
  case depends =>
    intro s hs j hj b
    have hj' := hnormal.junctions hs j hj
    exact hj'.given_const b

def filing : List Step :=
  [.group .and [.group .and [], .restrict ⟨.null "title", .and⟩, .restrict ⟨.null "body", .or⟩],
    .existing "author.company" .and [.restrict ⟨.notNull "name", .and⟩],
    .load [.scoped "author" [.restrict ⟨.null "email", .and⟩, .restrict ⟨.has "company", .or⟩]],
    .existing "publisher" .or []]

def filed : Outcome := Step.runAll ⟨shelf, fun _ ↦ .ok 0⟩ filing { table := "posts" }

theorem hasNormalConditions_filed : filed.failure? = some (.unknownRelation "posts" "publisher") ∧
    filed.draft.select.condition? = some ⟨.and,
      [.joined .or [.atom (.null ⟨"posts", "title"⟩), .atom (.null ⟨"posts", "body"⟩)],
        .existing "users" .and [.atom (.joins ⟨"users", "id"⟩ ⟨"posts", "author_id"⟩),
          .existing "companies" .and
            [.atom (.joins ⟨"companies", "id"⟩ ⟨"users", "company_id"⟩),
              .atom (.notNull ⟨"companies", "name"⟩)]]]⟩ ∧
    filed.draft.loads.map (·.select.condition?) = [some ⟨.or, [.atom (.null ⟨"users", "email"⟩),
      .existing "companies" .and
        [.atom (.joins ⟨"companies", "id"⟩ ⟨"users", "company_id"⟩)]]⟩] ∧
    filed.draft.HasNormalConditions shelf := by
  have hfresh : Draft.Reachable ⟨shelf, fun _ ↦ .ok 0⟩ { table := "posts" } := .fresh "posts"
  have hfiled := (hfresh.runAll filing).attainable
  exact ⟨rfl, rfl, rfl, Draft.Attainable.hasNormalConditions hfiled⟩

end Listing
