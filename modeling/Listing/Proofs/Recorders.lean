import Listing.Proofs.Assembly
import Listing.Proofs.Runs

namespace Listing

namespace Step

mutual

/-- What a recorder keeps of a step: what it is told to do, but not what it is only asked. -/
def operations : Step → List Step
  | .group c scope => [.group c (operationsAll scope)]
  | .existing chain c scope => [.existing chain c (operationsAll scope)]
  | .load includes => [.load (includesOperations includes)]
  | .restrict p => [.restrict p]
  | .order o => [.order o]
  | .limit n => [.limit n]
  | .offset n => [.offset n]
  | .tableAt _ => []
  | .countRows => []
  | .fail _ => []

def operationsAll : List Step → List Step
  | [] => []
  | step :: more => operations step ++ operationsAll more

def includeOperations : Include Step → Include Step
  | .plain chain => .plain chain
  | .scoped chain scope => .scoped chain (operationsAll scope)

def includesOperations : List (Include Step) → List (Include Step)
  | [] => []
  | i :: more => includeOperations i :: includesOperations more

end

theorem operationsAll_eq (steps : List Step) : operationsAll steps = steps.flatMap operations := by
  induction steps with
  | nil => rfl
  | cons step more ih => rw [operationsAll, ih, List.flatMap_cons]

theorem includesOperations_eq (includes : List (Include Step)) :
    includesOperations includes = includes.map includeOperations := by
  induction includes with
  | nil => rfl
  | cons i more ih => rw [includesOperations, ih, List.map_cons]

theorem operationsAll_eq_self {steps : List Step} (h : ∀ step ∈ steps, step.operations = [step]) :
    operationsAll steps = steps := by
  rw [operationsAll_eq, List.flatMap_congr h, List.flatMap_singleton']

theorem forall_failure? {steps : List Step} :
    firstFailure? steps = none ↔ ∀ step ∈ steps, step.failure? = none := by
  induction steps with
  | nil => exact ⟨fun _ _ h ↦ absurd h List.not_mem_nil, fun _ ↦ rfl⟩
  | cons step more ih => rw [firstFailure?, Option.or_eq_none_iff, ih, List.forall_mem_cons]

end Step

namespace Script

variable {separator : Char} {tableAt : String → Except Failure String}

theorem operations_filterStep {f : Filter} (h : (filterStep separator f).failure? = none) :
    (filterStep separator f).operations = [filterStep separator f] := by
  unfold filterStep at h ⊢
  cases hp : f.predicate separator with
  | error e => simp [hp, Step.failure?] at h
  | ok p => rfl

theorem operations_existingStep {c : Connective} {chain table : String} {filters : List Filter}
    (h : (existingStep separator c chain table filters).failure? = none) :
    (existingStep separator c chain table filters).operations =
      [existingStep separator c chain table filters] := by
  rw [existingStep, Step.failure?, Step.forall_failure?] at h
  rw [existingStep, Step.operations, Step.operationsAll_eq_self]
  intro step hstep
  obtain ⟨f, -, rfl⟩ := List.mem_map.mp hstep
  obtain ⟨hfilter, -⟩ := List.forall_mem_cons.mp (Step.forall_failure?.mp (h _ hstep))
  rw [Step.operations, Step.operationsAll_eq_self]
  intro step hstep
  obtain rfl := List.mem_singleton.mp hstep
  exact operations_filterStep hfilter

theorem operations_relatedSteps {c : Connective} {filters : List (String × List Filter)}
    (h : Step.firstFailure? (relatedSteps separator tableAt c filters) = none) :
    ∀ step ∈ relatedSteps separator tableAt c filters, step.operations = [step] := by
  unfold relatedSteps at h ⊢
  split
  · exact fun _ hstep ↦ absurd hstep List.not_mem_nil
  · rename_i hempty
    rw [if_neg hempty] at h
    cases hw : withTables tableAt filters with
    | error e => simp [hw, Step.firstFailure?, Step.failure?] at h
    | ok named =>
      simp only [hw] at h ⊢
      obtain ⟨hgroup, -⟩ := List.forall_mem_cons.mp (Step.forall_failure?.mp h)
      rw [Step.failure?, Step.forall_failure?] at hgroup
      intro step hstep
      obtain rfl := List.mem_singleton.mp hstep
      rw [Step.operations, Step.operationsAll_eq_self]
      intro member hmember
      obtain ⟨group, -, rfl⟩ := List.mem_map.mp hmember
      exact operations_existingStep (hgroup _ hmember)

theorem includeOperations_includeOf (named : List (String × String × List Order))
    (chain : String) : Step.includeOperations (includeOf named chain) = includeOf named chain := by
  unfold includeOf
  cases named.lookup chain with
  | none => rfl
  | some ordered =>
    refine congrArg (Include.scoped chain) (Step.operationsAll_eq_self fun step hstep ↦ ?_)
    obtain ⟨o, -, rfl⟩ := List.mem_map.mp hstep
    rfl

theorem operations_includeSteps {r : Request}
    (h : Step.firstFailure? (includeSteps tableAt r) = none) :
    ∀ step ∈ includeSteps tableAt r, step.operations = [step] := by
  unfold includeSteps at h ⊢
  split
  · exact fun _ hstep ↦ absurd hstep List.not_mem_nil
  · rename_i hempty
    rw [if_neg hempty] at h
    cases hw : withTables tableAt r.relatedOrders with
    | error e => simp [hw, Step.firstFailure?, Step.failure?] at h
    | ok named =>
      intro step hstep
      obtain rfl := List.mem_singleton.mp hstep
      rw [Step.operations, Step.includesOperations_eq, List.map_map]
      refine congrArg (fun includes ↦ [Step.load includes]) (List.map_congr_left fun chain _ ↦ ?_)
      exact includeOperations_includeOf named chain

theorem operationsAll_ofRequest {r : Request}
    (h : Step.firstFailure? (ofRequest separator tableAt r).steps = none) :
    Step.operationsAll (ofRequest separator tableAt r).steps =
      (ofRequest separator tableAt r).steps := by
  simp only [ofRequest, Step.firstFailure?_append, Option.or_eq_none_iff, and_assoc] at h
  obtain ⟨hroots, -, hand, hor, hincludes, -⟩ := h
  refine Step.operationsAll_eq_self ?_
  simp only [ofRequest, List.forall_mem_append, and_assoc]
  refine ⟨?_, ?_, operations_relatedSteps hand, operations_relatedSteps hor,
    operations_includeSteps hincludes, ?_⟩
  · intro step hstep
    obtain ⟨f, -, rfl⟩ := List.mem_map.mp hstep
    exact operations_filterStep (Step.forall_failure?.mp hroots _ hstep)
  · intro step hstep
    obtain ⟨o, -, rfl⟩ := List.mem_map.mp hstep
    rfl
  · cases r.page? with
    | none => exact fun _ hstep ↦ absurd hstep List.not_mem_nil
    | some w => exact List.forall_mem_cons.mpr ⟨rfl, List.forall_mem_singleton.mpr rfl⟩

end Script

namespace Recorder

/-- From every recorder it ends in the failure, if there is one, and else it returns the value and
writes these steps behind those that are there. -/
structure Writes {α : Type} (m : EStateM Failure Recorder α) (failure? : Option Failure)
    (steps : List Step) (a : α) : Prop where
  ok : failure? = none → ∀ r, m r = .ok a { r with steps := r.steps ++ steps }
  error : ∀ f, failure? = some f → ∀ r, ∃ r', m r = .error f r'

namespace Writes

variable {α β : Type} {failure? failure'? : Option Failure}

theorem push (step : Step) : Writes (push step) none [step] () where
  ok := fun _ _ ↦ rfl
  error := fun _ h ↦ nomatch h

theorem pure (a : α) : Writes (pure a) none [] a where
  ok := fun _ r ↦ by
    rw [List.append_nil]
    rfl
  error := fun _ h ↦ nomatch h

theorem bind {m : EStateM Failure Recorder α} {k : α → EStateM Failure Recorder β}
    {steps more : List Step} {a : α} {b : β} (h : Writes m failure? steps a)
    (h' : Writes (k a) failure'? more b) :
    Writes (m >>= k) (failure?.or failure'?) (steps ++ more) b where
  ok := by
    intro hnone r
    obtain ⟨hfirst, hmore⟩ := Option.or_eq_none_iff.mp hnone
    rw [Builder.bind_ok (h.ok hfirst r), h'.ok hmore, List.append_assoc]
  error := by
    intro f hf r
    cases failure? with
    | some first =>
      obtain rfl : first = f := Option.some.inj hf
      obtain ⟨r', hr⟩ := h.error first rfl r
      exact ⟨r', Builder.bind_error hr _⟩
    | none =>
      rw [Builder.bind_ok (h.ok rfl r)]
      exact h'.error f hf _

theorem bind_last {m : EStateM Failure Recorder α} {k : α → EStateM Failure Recorder β}
    {steps more : List Step} {a : α} {b : β} (h : Writes m failure? steps a)
    (h' : Writes (k a) none more b) : Writes (m >>= k) failure? (steps ++ more) b := by
  have hboth := h.bind h'
  rwa [Option.or_none] at hboth

theorem inScope {scope : EStateM Failure Recorder Unit} {steps : List Step}
    (h : Writes scope failure? steps ()) : Writes (inScope scope) failure? [] steps where
  ok := by
    intro hnone r
    rw [Recorder.inScope, h.ok hnone, List.append_nil]
    rfl
  error := by
    intro f hf r
    obtain ⟨r', hr⟩ := h.error f hf { r with steps := [] }
    rw [Recorder.inScope, hr]
    exact ⟨r, rfl⟩

end Writes

mutual

theorem writes_step : ∀ step : Step,
    Writes (builder.step step) step.failure? step.operations ()
  | .restrict p => .push (.restrict p)
  | .group c scope => (writes_steps scope).inScope.bind_last (.push (.group c _))
  | .existing chain c scope =>
    (writes_steps scope).inScope.bind_last (.push (.existing chain c _))
  | .order o => .push (.order o)
  | .load includes => (writes_inclusions includes).bind_last (.push (.load _))
  | .limit n => .push (.limit n)
  | .offset n => .push (.offset n)
  | .tableAt _ => .pure ()
  | .countRows => .pure ()
  | .fail f =>
    { ok := fun h ↦ nomatch h
      error := fun e h r ↦ ⟨r, by rw [← Option.some.inj h]; rfl⟩ }

theorem writes_steps : ∀ l : List Step,
    Writes (builder.steps l) (Step.firstFailure? l) (Step.operationsAll l) ()
  | [] => .pure ()
  | step :: more => (writes_step step).bind (writes_steps more)

theorem writes_inclusion : ∀ i : Include Step,
    Writes (recordInclude (builder.inclusion i)) (Step.includeFailure? i) []
      (Step.includeOperations i)
  | .plain _ => .pure _
  | .scoped _ scope => (writes_steps scope).inScope.bind_last (.pure _)

theorem writes_inclusions : ∀ includes : List (Include Step),
    Writes ((builder.inclusions includes).mapM recordInclude) (Step.includesFailure? includes) []
      (Step.includesOperations includes)
  | [] => .pure _
  | i :: more => by
    rw [Builder.inclusions, List.mapM_cons]
    exact (writes_inclusion i).bind ((writes_inclusions more).bind_last (.pure _))

end

theorem steady_builder (names : List (String × String)) :
    builder.Steady (·.names = names) (.ok ∘ tableNames names) where
  tableAt := fun chain r hr ↦ hr ▸ rfl
  step := by
    intro step r hr a t ht
    have hstep := writes_step step
    cases hf : step.failure? with
    | some f =>
      obtain ⟨r', he⟩ := hstep.error f hf r
      rw [he] at ht
      cases ht
    | none =>
      rw [hstep.ok hf r] at ht
      obtain ⟨-, rfl⟩ := EStateM.Result.ok.inj ht
      exact hr

end Recorder

theorem record_eq (separator : Char) (names : List (String × String)) (rows : UInt64)
    (r : Request) : record separator names rows r =
      (Script.ofRequest separator (.ok ∘ tableNames names) r).record rows := by
  have hassemble := (Recorder.steady_builder names).assemble separator r { names, rows } rfl
  have hsteps := Recorder.writes_steps (Script.ofRequest separator (.ok ∘ tableNames names) r).steps
  have hpage : (Script.ofRequest separator (.ok ∘ tableNames names) r).page? = r.page? := rfl
  rw [record, hassemble, Script.record, hpage]
  cases hf : Step.firstFailure? (Script.ofRequest separator (.ok ∘ tableNames names) r).steps with
  | some f =>
    obtain ⟨r', he⟩ := hsteps.error f hf { names, rows }
    rw [Builder.bind_error he]
  | none =>
    rw [Builder.bind_ok (hsteps.ok hf _), Script.operationsAll_ofRequest hf, List.nil_append]
    cases r.page? <;> rfl

theorem record_steps {separator : Char} {names : List (String × String)} {rows : UInt64}
    {r : Request} {recording : Recording} (h : record separator names rows r = .ok recording) :
    recording.steps = (Script.ofRequest separator (.ok ∘ tableNames names) r).steps := by
  simp only [record_eq, Script.record] at h
  split at h
  · simp at h
  · exact congrArg Recording.steps (Except.ok.inj h).symm

theorem operationsAll_of_record {separator : Char} {names : List (String × String)} {rows : UInt64}
    {r : Request} {recording : Recording} (h : record separator names rows r = .ok recording) :
    Step.operationsAll recording.steps = recording.steps := by
  rw [record_steps h]
  rw [record_eq, Script.record] at h
  split at h
  · simp at h
  · rename_i hnone
    exact Script.operationsAll_ofRequest hnone

end Listing
