import Listing.Proofs.Steps

namespace Listing

open Sql

namespace Step

variable (catalog : Catalog)

mutual

/-- The clauses that a step adds to a query of `table` if it succeeds. -/
def clauses (table : String) : Step → List Clause
  | .restrict p =>
    match Draft.tested { table } catalog p.test with
    | .ok j => [⟨p.connective, j⟩]
    | .error _ => []
  | .group c scope =>
    (Draft.condition? { table, clauses := clausesAll table scope }).toList.map (Clause.mk c)
  | .existing chain c scope =>
    match catalog.resolve table chain with
    | .ok hops =>
      let last := Catalog.lastTable table hops
      [⟨c, Draft.existence hops
        (Draft.condition? { table := last, clauses := clausesAll last scope })⟩]
    | .error _ => []
  | _ => []

def clausesAll (table : String) : List Step → List Clause
  | [] => []
  | step :: more => clauses table step ++ clausesAll table more

end

theorem clausesAll_append (table : String) (steps more : List Step) :
    clausesAll catalog table (steps ++ more) =
      clausesAll catalog table steps ++ clausesAll catalog table more := by
  induction steps with
  | nil => rfl
  | cons step later ih =>
    rw [List.cons_append, clausesAll, clausesAll, ih, List.append_assoc]

end Step

namespace Step

variable (source : Source)

theorem clauses_restrict (d : Draft) (p : Predicate)
    (h : (run source (.restrict p) d).failure? = none) :
    (run source (.restrict p) d).draft.clauses =
      d.clauses ++ clauses source.schema d.table (.restrict p) := by
  simp only [run, Draft.restrict, clauses, ← Draft.tested_table d] at h ⊢
  cases ht : d.tested source.schema p.test with
  | error f => simp [ht, Except.map, Outcome.ofExcept] at h
  | ok j => rfl

mutual

theorem run_clauses : ∀ (step : Step) (d : Draft), (run source step d).failure? = none →
    (run source step d).draft.clauses = d.clauses ++ clauses source.schema d.table step
  | .restrict p, d, h => clauses_restrict source d p h
  | .group c scope, d, h => by
    have hscope : (runAll source scope { table := d.table }).failure? = none := by
      simpa only [run, Outcome.failure?_close] using h
    have ih := runAll_clauses scope { table := d.table } hscope
    have hinner : (runAll source scope { table := d.table }).draft.condition? =
        Draft.condition? { table := d.table, clauses := clausesAll source.schema d.table scope } :=
      Draft.condition?_congr ih
    simp only [run, Outcome.draft_close d _ hscope, Draft.pushGroup_eq, clauses, hinner]
  | .existing chain c scope, d, h => by
    simp only [run, clauses] at h ⊢
    cases hr : source.schema.resolve d.table chain with
    | error f => simp [hr] at h
    | ok hops =>
      simp only [hr] at h ⊢
      have hscope := (Outcome.failure?_close _ d _).symm.trans h
      have ih := runAll_clauses scope _ hscope
      simp only [Outcome.draft_close d _ hscope, Draft.push]
      rw [Draft.condition?_congr (e := { table := _, clauses := _ }) ih]
      rfl
  | .load includes, d, _ => by
    obtain ⟨loads, h⟩ := runIncludes_eq source includes d
    simp only [run, h, clauses, List.append_nil]
  | .tableAt chain, d, _ => by
    simp only [run, clauses, List.append_nil]
    cases source.schema.tableAt d.table chain <;> rfl
  | .countRows, d, _ => by
    simp only [run, clauses, List.append_nil]
    cases source.count d.countSelect <;> rfl
  | .order _, _, _ => (List.append_nil _).symm
  | .limit _, _, _ => (List.append_nil _).symm
  | .offset _, _, _ => (List.append_nil _).symm
  | .fail _, _, _ => (List.append_nil _).symm

theorem runAll_clauses : ∀ (steps : List Step) (d : Draft),
    (runAll source steps d).failure? = none →
    (runAll source steps d).draft.clauses = d.clauses ++ clausesAll source.schema d.table steps
  | [], d, _ => (List.append_nil _).symm
  | step :: more, d, h => by
    obtain ⟨hstep, hmore⟩ := Outcome.failure?_andThen.mp h
    have h₁ := run_clauses step d hstep
    have h₂ := runAll_clauses more (run source step d).draft hmore
    rw [runAll, Outcome.draft_andThen _ hstep, h₂, h₁, run_table, clausesAll, List.append_assoc]

end

end Step

section Truth

variable {α : Type} (catalog : Catalog) (db : Database α) (ρ : Rows α)

/-- What a test of `table` is of a row, unless it names a relation that does not exist. -/
def Test.truth? (table : String) : Test → Option Truth
  | .compare field op raw =>
    some ((Atom.compare (.ofField table field) op (Draft.bound op raw)).truth db ρ)
  | .oneOf field raws => some ((Atom.oneOf (.ofField table field) (raws.map .ofLiteral)).truth db ρ)
  | .noneOf field raws =>
    some ((Atom.noneOf (.ofField table field) (raws.map .ofLiteral)).truth db ρ)
  | .null field => some ((Atom.null (.ofField table field)).truth db ρ)
  | .notNull field => some ((Atom.notNull (.ofField table field)).truth db ρ)
  | .has chain => (catalog.resolve table chain).toOption.map fun hops ↦ db.reaches ρ hops fun _ ↦ ⊤

theorem Draft.truth_tested (table : String) (test : Test) :
    (Draft.tested { table } catalog test).toOption.map (Junction.truth db ρ) =
      test.truth? catalog db ρ table := by
  cases test with
  | has chain =>
    simp only [Draft.tested, Test.truth?]
    cases catalog.resolve table chain with
    | error f => rfl
    | ok hops => exact congrArg some (Draft.truth_existence db ρ hops none)
  | compare field op raw => exact congrArg some (Junction.truth_single db ρ _)
  | oneOf field raws => exact congrArg some (Junction.truth_single db ρ _)
  | noneOf field raws => exact congrArg some (Junction.truth_single db ρ _)
  | null field => exact congrArg some (Junction.truth_single db ρ _)
  | notNull field => exact congrArg some (Junction.truth_single db ρ _)

namespace Step

mutual

/-- What the clauses of a step are of a row. A group is what its own clauses are, and an existing
chain is one existence inside the other with the clauses of its scope in the last. -/
def reads (table : String) (ρ : Rows α) : Step → List (Connective × Truth)
  | .restrict p => (p.test.truth? catalog db ρ table).toList.map (p.connective, ·)
  | .group c scope =>
    match readsAll table ρ scope with
    | [] => []
    | first :: more => [(c, .read (first :: more))]
  | .existing chain c scope =>
    match catalog.resolve table chain with
    | .ok hops =>
      [(c, db.reaches ρ hops fun ρ ↦ .read (readsAll (Catalog.lastTable table hops) ρ scope))]
    | .error _ => []
  | _ => []

def readsAll (table : String) (ρ : Rows α) : List Step → List (Connective × Truth)
  | [] => []
  | step :: more => reads table ρ step ++ readsAll table ρ more

end

mutual

theorem map_clauses (table : String) (ρ : Rows α) : ∀ step : Step,
    (clauses catalog table step).map (Clause.read db ρ) = reads catalog db table ρ step
  | .restrict p => by
    have h := Draft.truth_tested catalog db ρ table p.test
    simp only [clauses, reads, ← h]
    cases Draft.tested { table } catalog p.test <;> rfl
  | .group c scope => by
    have ih := mapAll_clauses table ρ scope
    have ht := Draft.truth_condition? db ρ { table, clauses := clausesAll catalog table scope }
    have hnone := Draft.condition?_eq_none
      (d := { table, clauses := clausesAll catalog table scope })
    simp only [clauses, reads, ← ih]
    simp only [Draft.truth] at ht
    cases hc : clausesAll catalog table scope with
    | nil => rfl
    | cons first more =>
      rw [hc] at ht hnone
      cases hj : Draft.condition? { table, clauses := first :: more } with
      | none => exact absurd (hnone.mp hj) (List.cons_ne_nil _ _)
      | some j =>
        rw [hj] at ht
        exact congrArg (fun t ↦ [(c, t)]) ht
  | .existing chain c scope => by
    simp only [clauses, reads]
    cases catalog.resolve table chain with
    | error f => rfl
    | ok hops =>
      have hinner (ρ : Rows α) := (Draft.truth_condition? db ρ
        { table := Catalog.lastTable table hops,
          clauses := clausesAll catalog (Catalog.lastTable table hops) scope }).trans
            (congrArg Truth.read (mapAll_clauses (Catalog.lastTable table hops) ρ scope))
      simp only [List.map_cons, List.map_nil, Clause.read, Draft.truth_existence, hinner]
  | .order _ => rfl
  | .load _ => rfl
  | .limit _ => rfl
  | .offset _ => rfl
  | .tableAt _ => rfl
  | .countRows => rfl
  | .fail _ => rfl

theorem mapAll_clauses (table : String) (ρ : Rows α) : ∀ steps : List Step,
    (clausesAll catalog table steps).map (Clause.read db ρ) = readsAll catalog db table ρ steps
  | [] => rfl
  | step :: more => by
    rw [clausesAll, List.map_append, map_clauses table ρ step, mapAll_clauses table ρ more, readsAll]

end

section ReadsAll

variable {table : String}

theorem readsAll_eq (steps : List Step) :
    readsAll catalog db table ρ steps = steps.flatMap (reads catalog db table ρ) := by
  induction steps with
  | nil => rfl
  | cons step more ih => rw [readsAll, ih, List.flatMap_cons]

theorem readsAll_append (steps more : List Step) :
    readsAll catalog db table ρ (steps ++ more) =
      readsAll catalog db table ρ steps ++ readsAll catalog db table ρ more := by
  simp only [readsAll_eq, List.flatMap_append]

theorem readsAll_map {β : Type} {step : β → Step} {clause : β → Connective × Truth} {l : List β}
    (h : ∀ b ∈ l, (step b).reads catalog db table ρ = [clause b]) :
    readsAll catalog db table ρ (l.map step) = l.map clause := by
  rw [readsAll_eq, List.flatMap_map, List.map_eq_flatMap]
  exact List.flatMap_congr h

theorem reads_group (c : Connective) {scope : List Step}
    (h : readsAll catalog db table ρ scope ≠ []) :
    reads catalog db table ρ (.group c scope) =
      [(c, .read (readsAll catalog db table ρ scope))] := by
  rw [reads]
  cases hs : readsAll catalog db table ρ scope with
  | nil => exact absurd hs h
  | cons first more => rfl

end ReadsAll

theorem truth_runAll (source : Source) (steps : List Step) (table : String)
    (h : (runAll source steps { table }).failure? = none) :
    (runAll source steps { table }).draft.truth db ρ =
      .read (readsAll source.schema db table ρ steps) := by
  rw [Draft.truth, runAll_clauses source steps _ h, ← mapAll_clauses]
  rfl

end Step

end Truth

end Listing
