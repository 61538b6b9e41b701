import Listing.Proofs.Assembly
import Listing.Proofs.Steps

namespace Listing

namespace Drafting

def after (s : Drafting) (o : Outcome) : EStateM.Result Failure Drafting Unit :=
  match o.failure? with
  | none => .ok () ⟨o.draft, s.asked ++ o.asked⟩
  | some f => .error f ⟨o.draft, s.asked ++ o.asked⟩

theorem after_ofExcept (s : Drafting) (e : Except Failure Draft) :
    s.after (.ofExcept s.draft e) =
      (MonadExcept.ofExcept e >>= fun d ↦ change fun _ ↦ d : EStateM Failure Drafting Unit) s := by
  cases e <;> simp only [after, Outcome.ofExcept, List.append_nil] <;> rfl

theorem after_draft (s : Drafting) (d : Draft) :
    s.after { draft := d } = .ok () { s with draft := d } := by
  simp only [after, List.append_nil]

theorem after_failure (s : Drafting) (f : Failure) :
    s.after { draft := s.draft, failure? := some f } = .error f s := by
  simp only [after, List.append_nil]

theorem after_map {α : Type} {s : Drafting} {e : Except Failure α} {into : α → Draft}
    {k : α → EStateM Failure Drafting Unit}
    (hk : ∀ a, k a s = .ok () { s with draft := into a }) :
    (MonadExcept.ofExcept e >>= k) s = s.after (.ofExcept s.draft (e.map into)) := by
  cases e with
  | error f => exact (after_failure s f).symm
  | ok a => exact (hk a).trans (after_draft s (into a)).symm

theorem after_andThen {m k : EStateM Failure Drafting Unit} {s : Drafting} {o : Outcome}
    {next : Draft → Outcome} (hm : m s = s.after o) (hk : ∀ t, k t = t.after (next t.draft)) :
    (m >>= fun _ ↦ k) s = s.after (o.andThen next) := by
  obtain ⟨d, asked, failure?⟩ := o
  cases failure? with
  | some f => exact Builder.bind_error hm _
  | none =>
    rw [Builder.bind_ok hm, hk, after, after]
    simp only [Outcome.andThen, List.append_assoc]

theorem after_close {scope : EStateM Failure Drafting Unit} {s : Drafting} {table : String}
    {o : Outcome} (h : scope { s with draft := { table } } =
      Drafting.after { s with draft := { table } } o) (into : Draft → Draft → Draft) :
    (inScope table scope >>= fun inner ↦ change (into · inner)) s =
      s.after (o.close s.draft (into s.draft)) := by
  change EStateM.bind (inScope table scope) _ s = _
  rw [EStateM.bind, inScope, h, after, Outcome.close, after]
  cases o.failure? with
  | some f => rfl
  | none => rfl

end Drafting

namespace Source

open Drafting

variable (source : Source)

theorem hops_eq (chain : String) (s : Drafting) : source.hops chain s =
    (MonadExcept.ofExcept (source.schema.resolve s.draft.table chain) :
      EStateM Failure Drafting (List Relation)) s := rfl

theorem tableAt_eq (chain : String) (s : Drafting) : source.builder.tableAt chain s =
    (MonadExcept.ofExcept (source.schema.tableAt s.draft.table chain) :
      EStateM Failure Drafting String) s := rfl

theorem countRows_eq (s : Drafting) : source.builder.countRows s =
    (MonadExcept.ofExcept (source.count s.draft.countSelect) : EStateM Failure Drafting UInt64)
      { s with asked := s.asked ++ [s.draft.countSelect] } := rfl

theorem hops_ok {s : Drafting} {chain : String} {hops : List Relation}
    (h : source.schema.resolve s.draft.table chain = .ok hops) :
    source.hops chain s = .ok hops s := by
  rw [hops_eq, h]
  rfl

theorem hops_error {s : Drafting} {chain : String} {f : Failure}
    (h : source.schema.resolve s.draft.table chain = .error f) :
    source.hops chain s = .error f s := by
  rw [hops_eq, h]
  rfl

mutual

theorem step_builder : ∀ (step : Step) (s : Drafting),
    source.builder.step step s = s.after (Step.run source step s.draft)
  | .restrict p, s => (s.after_ofExcept _).symm
  | .group c scope, s =>
    after_close (steps_builder scope { s with draft := { table := s.draft.table } })
      fun d inner ↦ d.pushGroup c inner
  | .existing chain c scope, s => by
    simp only [Step.run]
    cases hr : source.schema.resolve s.draft.table chain with
    | error f => exact (Builder.bind_error (source.hops_error hr) _).trans (after_failure s f).symm
    | ok hops =>
      refine (Builder.bind_ok (source.hops_ok hr) _).trans ?_
      exact after_close (steps_builder scope { s with draft := { table := _ } })
        fun d inner ↦ d.push c (Draft.existence hops inner.condition?)
  | .order o, s => (after_draft s _).symm
  | .load includes, s => inclusions_builder includes s
  | .limit n, s => (after_draft s _).symm
  | .offset n, s => (after_draft s _).symm
  | .tableAt _, _ => after_map fun _ ↦ rfl
  | .countRows, s => by
    simp only [Step.run]
    have hcount := source.countRows_eq s
    cases hn : source.count s.draft.countSelect with
    | error f =>
      rw [hn] at hcount
      exact Builder.bind_error hcount _
    | ok n =>
      rw [hn] at hcount
      exact Builder.bind_ok hcount _
  | .fail f, s => (after_failure s f).symm

theorem steps_builder : ∀ (l : List Step) (s : Drafting),
    source.builder.steps l s = s.after (Step.runAll source l s.draft)
  | [], s => (after_draft s _).symm
  | step :: more, s => after_andThen (step_builder step s) (steps_builder more)

theorem inclusion_builder : ∀ (i : Include Step) (s : Drafting),
    source.loadInclude (source.builder.inclusion i) s = s.after (Step.runInclude source i s.draft)
  | .plain _, _ => after_map fun _ ↦ rfl
  | .scoped chain scope, s => by
    simp only [Step.runInclude]
    cases hr : source.schema.resolve s.draft.table chain with
    | error f => exact (Builder.bind_error (source.hops_error hr) _).trans (after_failure s f).symm
    | ok hops =>
      refine (Builder.bind_ok (source.hops_ok hr) _).trans ?_
      rw [← s.draft.loadRoute_table (Draft.route chain hops)]
      exact after_close (s := { s with draft := s.draft.loadRoute (Draft.route chain hops) })
        (steps_builder scope { s with draft := { table := _ } })
        fun d inner ↦ d.loadScope (Draft.route chain hops) inner

theorem inclusions_builder : ∀ (includes : List (Include Step)) (s : Drafting),
    (source.builder.inclusions includes).forM source.loadInclude s =
      s.after (Step.runIncludes source includes s.draft)
  | [], s => (after_draft s _).symm
  | i :: more, s => after_andThen (inclusion_builder i s) (inclusions_builder more)

end

theorem keeps_builder (table : String) (step : Step) :
    Builder.Keeps (·.draft.table = table) (source.builder.step step) := by
  intro s hs a t ht
  rw [step_builder, after] at ht
  cases hf : (Step.run source step s.draft).failure? with
  | some f => simp [hf] at ht
  | none =>
    rw [hf] at ht
    obtain ⟨-, rfl⟩ := EStateM.Result.ok.inj ht
    exact (Step.run_table source step s.draft).trans hs

theorem steady_builder (table : String) :
    source.builder.Steady (·.draft.table = table) (source.schema.tableAt table) where
  tableAt := fun chain s hs ↦ hs ▸ source.tableAt_eq chain s
  step := source.keeps_builder table

theorem lastWindow_none (s : Drafting) : source.builder.lastWindow none s =
    (MonadExcept.ofExcept ((source.count s.draft.countSelect).map fun n ↦ ⟨1, n⟩) :
      EStateM Failure Drafting Window) { s with asked := s.asked ++ [s.draft.countSelect] } := by
  have hcount := source.countRows_eq s
  cases hn : source.count s.draft.countSelect with
  | error f =>
    rw [hn] at hcount
    exact Builder.bind_error hcount _
  | ok n =>
    rw [hn] at hcount
    exact Builder.bind_ok hcount _

end Source

/-- A plan carries the script of its request out. -/
theorem plan_eq (separator : Char) (source : Source) (table : String) (r : Request) :
    plan separator source table r =
      (Script.ofRequest separator (source.schema.tableAt table) r).plan source table := by
  have hassemble := (source.steady_builder table).assemble separator r { draft := { table } } rfl
  have hsteps := source.steps_builder
    (Script.ofRequest separator (source.schema.tableAt table) r).steps { draft := { table } }
  have hpage : (Script.ofRequest separator (source.schema.tableAt table) r).page? = r.page? := rfl
  rw [plan, hassemble, Script.plan, hpage]
  generalize Step.runAll source _ _ = o at hsteps ⊢
  obtain ⟨d, asked, failure?⟩ := o
  cases failure? with
  | some f => rw [Builder.bind_error hsteps, List.nil_append]
  | none =>
    rw [Builder.bind_ok hsteps, List.nil_append]
    cases r.page? with
    | some w => rfl
    | none =>
      rw [source.lastWindow_none]
      cases hn : source.count d.countSelect with
      | error f => simp only [hn]; rfl
      | ok n => simp only [hn]; rfl

theorem plan_ok_iff {separator : Char} {source : Source} {table : String} {r : Request}
    {page : Page} : (plan separator source table r).result = .ok page ↔
      ((Script.ofRequest separator (source.schema.tableAt table) r).plan source table).result =
        .ok page := by
  rw [plan_eq]

end Listing
