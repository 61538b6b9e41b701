import Listing.Proofs.Counting
import Listing.Proofs.Recorders
import Listing.Proofs.Simulation
import Listing.Proofs.Walks

namespace Listing

namespace Outcome

theorem andThen_of_draft (d : Draft) (next : Draft → Outcome) :
    ({ draft := d } : Outcome).andThen next = next d := by
  simp only [andThen, List.nil_append]

theorem andThen_assoc (o : Outcome) (next last : Draft → Outcome) :
    (o.andThen next).andThen last = o.andThen fun d ↦ (next d).andThen last := by
  obtain ⟨d, asked, failure?⟩ := o
  cases failure? with
  | some f => rfl
  | none =>
    simp only [andThen]
    cases h : (next d).failure? with
    | some f => simp only [h]
    | none => simp only [List.append_assoc]

end Outcome

namespace Step

theorem runAll_singleton (source : Source) (step : Step) (d : Draft) :
    runAll source [step] d = run source step d := by
  change (run source step d).andThen (fun d ↦ { draft := d }) = run source step d
  obtain ⟨d', asked, failure?⟩ := run source step d
  cases failure? with
  | some f => rfl
  | none => simp only [Outcome.andThen, List.append_nil]

theorem runAll_append (source : Source) (steps more : List Step) (d : Draft) :
    runAll source (steps ++ more) d = (runAll source steps d).andThen (runAll source more) := by
  induction steps generalizing d with
  | nil => exact (Outcome.andThen_of_draft d (runAll source more)).symm
  | cons step later ih =>
    rw [List.cons_append, runAll, runAll, Outcome.andThen_assoc]
    exact congrArg (Outcome.andThen _) (funext ih)

theorem run_quiet {source : Source} {step : Step} (hcounts : step.counts = false) {d : Draft}
    (h : (run source step d).failure? = none) (count : Sql.Select → Except Failure UInt64) :
    run ⟨source.schema, count⟩ step d = { draft := (run source step d).draft } := by
  have hasked := asked_run source step hcounts d
  rw [run_counter source.schema count source.count step hcounts d]
  cases hrun : run source step d with
  | mk d' asked failure? =>
    rw [hrun] at h hasked
    obtain rfl : failure? = none := h
    obtain rfl : asked = [] := hasked
    rfl

end Step

namespace Recorder

/-- What a recorder has written down gives the draft again, on a fresh query and with any counter.
The tables and the number of rows it has been told stay as they are. -/
structure Mirrors (schema : Catalog) (names : List (String × String)) (rows : UInt64)
    (table : String) (s : Drafting) (r : Recorder) : Prop where
  table_eq : s.draft.table = table
  names_eq : r.names = names
  rows_eq : r.rows = rows
  replay : ∀ count, Step.runAll ⟨schema, count⟩ r.steps { table } = { draft := s.draft }

section Mirrors

variable {source : Source} {names : List (String × String)} {rows : UInt64} {table : String}
  {s : Drafting} {r : Recorder}

theorem Mirrors.fresh (schema : Catalog) (table : String) (asked : List Sql.Select) :
    Mirrors schema names rows table ⟨{ table }, asked⟩ { names, rows } :=
  ⟨rfl, rfl, rfl, fun _ ↦ rfl⟩

theorem Mirrors.push (h : Mirrors source.schema names rows table s r) (step : Step) {d : Draft}
    (hrun : ∀ count, Step.run ⟨source.schema, count⟩ step s.draft = { draft := d })
    (asked : List Sql.Select) :
    Mirrors source.schema names rows table ⟨d, asked⟩ { r with steps := r.steps ++ [step] } where
  table_eq := by
    have htable := Step.run_table source step s.draft
    rw [hrun source.count] at htable
    exact htable.trans h.table_eq
  names_eq := h.names_eq
  rows_eq := h.rows_eq
  replay := by
    intro count
    rw [Step.runAll_append, h.replay, Outcome.andThen_of_draft, Step.runAll_singleton, hrun]

theorem ok_of_after {o : Outcome} {t : Drafting} (h : s.after o = .ok () t) :
    o.failure? = none ∧ t = ⟨o.draft, s.asked ++ o.asked⟩ := by
  unfold Drafting.after at h
  cases hf : o.failure? with
  | some f => simp [hf] at h
  | none =>
    rw [hf] at h
    exact ⟨rfl, (EStateM.Result.ok.inj h).2.symm⟩

theorem sim_push (step : Step) (hcounts : step.counts = false) :
    Sim (Mirrors source.schema names rows table) Eq (source.builder.step step)
      (Recorder.push step) := by
  intro s r hs u t ht
  rw [source.step_builder] at ht
  obtain ⟨hf, rfl⟩ := ok_of_after ht
  exact ⟨(), _, rfl, rfl, hs.push step (Step.run_quiet hcounts hf) _⟩

theorem sim_change {into : Draft → Draft} {step : Step}
    (h : ∀ d count, d.table = table →
      Step.run ⟨source.schema, count⟩ step d = { draft := into d }) :
    Sim (Mirrors source.schema names rows table) Eq (Drafting.change into)
      (Recorder.push step) := by
  intro s r hs u t ht
  obtain ⟨-, rfl⟩ := EStateM.Result.ok.inj ht
  exact ⟨(), _, rfl, rfl, hs.push step (fun count ↦ h s.draft count hs.table_eq) s.asked⟩

section OneSided

variable {α α' : Type} {V : α → α' → Prop} {m' : EStateM Failure Recorder α'}

theorem sim_get {k : Drafting → EStateM Failure Drafting α}
    (h : ∀ s : Drafting, s.draft.table = table →
      Sim (Mirrors source.schema names rows table) V (k s) m') :
    Sim (Mirrors source.schema names rows table) V (get >>= k) m' :=
  fun s r hs a t ht ↦ h s hs.table_eq s r hs a t ht

theorem resolve_of_hops {s t : Drafting} {chain : String} {α : Type}
    {k : List Relation → EStateM Failure Drafting α} {a : α}
    (h : (source.hops chain >>= k) s = .ok a t) :
    ∃ hops, source.schema.resolve s.draft.table chain = .ok hops ∧ k hops s = .ok a t := by
  cases hr : source.schema.resolve s.draft.table chain with
  | error f =>
    rw [Builder.bind_error (source.hops_error hr)] at h
    cases h
  | ok hops => exact ⟨hops, rfl, (Builder.bind_ok (source.hops_ok hr) k).symm.trans h⟩

theorem sim_hops {chain : String} {k : List Relation → EStateM Failure Drafting α}
    (h : ∀ hops, source.schema.resolve table chain = .ok hops →
      Sim (Mirrors source.schema names rows table) V (k hops) m') :
    Sim (Mirrors source.schema names rows table) V (source.hops chain >>= k) m' := by
  intro s r hs a t ht
  obtain ⟨hops, hr, ht⟩ := resolve_of_hops ht
  exact h hops (hs.table_eq ▸ hr) s r hs a t ht

end OneSided

section Scopes

variable {scope : EStateM Failure Drafting Unit} {scope' : EStateM Failure Recorder Unit}
  {inner : String}

theorem inScope_ok (h : Sim (Mirrors source.schema names rows inner) Eq scope scope')
    (hnames : r.names = names) (hrows : r.rows = rows) {d : Draft} {t : Drafting}
    (ht : Drafting.inScope inner scope s = .ok d t) : t.draft = s.draft ∧
      ∃ steps, Recorder.inScope scope' r = .ok steps r ∧ ∀ count,
        Step.runAll ⟨source.schema, count⟩ steps { table := inner } = { draft := d } := by
  unfold Drafting.inScope at ht
  cases hm : scope { s with draft := { table := inner } } with
  | error f u => simp [hm] at ht
  | ok _ u =>
    rw [hm] at ht
    obtain ⟨rfl, rfl⟩ := EStateM.Result.ok.inj ht
    have hfresh : Mirrors source.schema names rows inner { s with draft := { table := inner } }
        { r with steps := [] } := ⟨rfl, hnames, hrows, fun _ ↦ rfl⟩
    obtain ⟨_, u', hm', -, hu⟩ := h _ _ hfresh () u hm
    refine ⟨rfl, u'.steps, ?_, hu.replay⟩
    rw [Recorder.inScope, hm']

theorem sim_inScope (h : Sim (Mirrors source.schema names rows inner) Eq scope scope') :
    Sim (Mirrors source.schema names rows table)
      (fun d steps ↦ ∀ count,
        Step.runAll ⟨source.schema, count⟩ steps { table := inner } = { draft := d })
      (Drafting.inScope inner scope) (Recorder.inScope scope') := by
  intro s r hs d t ht
  obtain ⟨hdraft, steps, hsteps, hrun⟩ := inScope_ok h hs.names_eq hs.rows_eq ht
  have ht : t.draft = s.draft := hdraft
  exact ⟨steps, r, hsteps, hrun, ⟨ht ▸ hs.table_eq, hs.names_eq, hs.rows_eq, ht ▸ hs.replay⟩⟩

theorem sim_group (c : Connective)
    (h : Sim (Mirrors source.schema names rows table) Eq scope scope') :
    Sim (Mirrors source.schema names rows table) Eq (source.builder.group c scope)
      (Recorder.builder.group c scope') := by
  refine sim_get fun s hs ↦ ?_
  rw [hs]
  refine (sim_inScope h).bind fun d steps hrun ↦ sim_change fun d' count hd' ↦ ?_
  simp only [Step.run, hd', hrun]
  rfl

theorem sim_existing (chain : String) (c : Connective)
    (h : ∀ inner, Sim (Mirrors source.schema names rows inner) Eq scope scope') :
    Sim (Mirrors source.schema names rows table) Eq (source.builder.existing chain c scope)
      (Recorder.builder.existing chain c scope') := by
  refine sim_hops fun hops hr ↦ sim_get fun s hs ↦ ?_
  rw [hs]
  refine (sim_inScope (h _)).bind fun d steps hrun ↦ sim_change fun d' count hd' ↦ ?_
  simp only [Step.run, hd', hr, hrun]
  rfl

end Scopes

section Includes

theorem loadInclude_ok {i : Include (EStateM Failure Drafting Unit)}
    {i' : Include (EStateM Failure Recorder Unit)}
    (h : Include.Alike (Mirrors source.schema names rows) i i') (hnames : r.names = names)
    (hrows : r.rows = rows) {t : Drafting} (ht : source.loadInclude i s = .ok () t) :
    ∃ recorded, recordInclude i' r = .ok recorded r ∧ ∀ count,
      Step.runInclude ⟨source.schema, count⟩ recorded s.draft = { draft := t.draft } := by
  cases h with
  | whole chain =>
    obtain ⟨hops, hr, ht⟩ := resolve_of_hops ht
    obtain ⟨-, rfl⟩ := EStateM.Result.ok.inj ht
    refine ⟨.plain chain, rfl, fun count ↦ ?_⟩
    simp only [Step.runInclude, hr]
    rfl
  | @within chain scope scope' h =>
    obtain ⟨hops, hr, ht⟩ := resolve_of_hops ht
    let loaded := s.draft.loadRoute (Draft.route chain hops)
    change (Drafting.inScope (Catalog.lastTable loaded.table hops) (scope.forM id) >>= fun d ↦
      Drafting.change (·.loadScope (Draft.route chain hops) d)) { s with draft := loaded } = _ at ht
    rw [s.draft.loadRoute_table] at ht
    obtain ⟨d, u, hscope, ht⟩ := Builder.bind_eq_ok ht
    obtain ⟨-, rfl⟩ := EStateM.Result.ok.inj ht
    obtain ⟨hdraft, steps, hsteps, hrun⟩ := inScope_ok (h _) hnames hrows hscope
    refine ⟨.scoped chain steps, Builder.bind_ok hsteps _, fun count ↦ ?_⟩
    simp only [Step.runInclude, hr, hrun]
    rw [hdraft]
    rfl

theorem loadIncludes_ok {includes : List (Include (EStateM Failure Drafting Unit))}
    {includes' : List (Include (EStateM Failure Recorder Unit))}
    (h : List.Forall₂ (Include.Alike (Mirrors source.schema names rows)) includes includes')
    (hnames : r.names = names) (hrows : r.rows = rows) {t : Drafting}
    (ht : includes.forM source.loadInclude s = .ok () t) :
    ∃ recorded, includes'.mapM recordInclude r = .ok recorded r ∧ ∀ count,
      Step.runIncludes ⟨source.schema, count⟩ recorded s.draft = { draft := t.draft } := by
  induction h generalizing s with
  | nil =>
    obtain ⟨-, rfl⟩ := EStateM.Result.ok.inj ht
    exact ⟨[], rfl, fun _ ↦ rfl⟩
  | @cons i i' more more' hi hmore ih =>
    obtain ⟨_, u, hfirst, ht⟩ := Builder.bind_eq_ok (m := source.loadInclude i) ht
    obtain ⟨first, hwritten, hrun⟩ := loadInclude_ok hi hnames hrows hfirst
    obtain ⟨later, hlater, hruns⟩ := ih ht
    refine ⟨first :: later, ?_, fun count ↦ ?_⟩
    · rw [List.mapM_cons, Builder.bind_ok hwritten, Builder.bind_ok hlater]
      rfl
    · rw [Step.runIncludes, hrun, Outcome.andThen_of_draft, hruns]

theorem sim_load {includes : List (Include (EStateM Failure Drafting Unit))}
    {includes' : List (Include (EStateM Failure Recorder Unit))}
    (h : List.Forall₂ (Include.Alike (Mirrors source.schema names rows)) includes includes') :
    Sim (Mirrors source.schema names rows table) Eq (source.builder.load includes)
      (Recorder.builder.load includes') := by
  intro s r hs _ t ht
  obtain ⟨recorded, hrecorded, hrun⟩ := loadIncludes_ok h hs.names_eq hs.rows_eq ht
  exact ⟨(), _, Builder.bind_ok hrecorded _, rfl, hs.push (.load recorded) hrun t.asked⟩

end Includes

/-- A recorder simulates the builder of drafts, call by call and in every scope. -/
theorem simulates (source : Source) (names : List (String × String)) (rows : UInt64) :
    source.builder.Simulates Recorder.builder (Mirrors source.schema names rows) where
  restrict := fun _ p ↦ sim_push (.restrict p) rfl
  group := fun _ c _ _ ↦ sim_group c
  existing := fun _ chain c _ _ ↦ sim_existing chain c
  order := fun _ o ↦ sim_push (.order o) rfl
  load := fun _ _ _ ↦ sim_load
  limit := fun _ n ↦ sim_push (.limit n) rfl
  offset := fun _ n ↦ sim_push (.offset n) rfl

theorem sim_tableAt {chain : String}
    (h : source.schema.tableAt table chain = .ok (tableNames names chain)) :
    Sim (Mirrors source.schema names rows table) Eq (source.builder.tableAt chain)
      (Recorder.builder.tableAt chain) := by
  intro s r hs name t ht
  rw [source.tableAt_eq, hs.table_eq, h] at ht
  obtain ⟨rfl, rfl⟩ := EStateM.Result.ok.inj ht
  exact ⟨_, r, rfl, congrArg (tableNames · chain) hs.names_eq.symm, hs⟩

theorem count_of_turnTo {w : Window} {t : Drafting} (h : source.builder.turnTo none t = .ok w s) :
    ∃ n, source.count t.draft.countSelect = .ok n ∧ w = ⟨1, n⟩ ∧
      s = { t with asked := t.asked ++ [t.draft.countSelect] } := by
  have hcount := source.lastWindow_none t
  change source.builder.turnTo none t = _ at hcount
  rw [h] at hcount
  cases hn : source.count t.draft.countSelect with
  | error f =>
    rw [hn] at hcount
    cases hcount
  | ok n =>
    rw [hn] at hcount
    obtain ⟨rfl, rfl⟩ := EStateM.Result.ok.inj hcount
    exact ⟨n, rfl, rfl, rfl⟩

theorem assemble_mirrors {separator : Char} {request : Request} {w : Window}
    (htables : ∀ chain ∈ Script.lookups request,
      source.schema.tableAt table chain = .ok (tableNames names chain))
    (h : source.builder.assemble separator request { draft := { table } } = .ok w s)
    (hrows : ∀ query ∈ s.asked, source.count query = .ok rows) :
    ∃ r, Recorder.builder.assemble separator request { names, rows } = .ok w r ∧
      Mirrors source.schema names rows table s r := by
  have hsim := (simulates source names rows).arrange separator table
    fun chain hchain ↦ sim_tableAt (htables chain hchain)
  unfold Builder.assemble at h ⊢
  obtain ⟨_, t, harrange, h⟩ := Builder.bind_eq_ok h
  obtain ⟨_, r, hr, -, ht⟩ := hsim _ _ (Mirrors.fresh source.schema table []) () t harrange
  rw [Builder.bind_ok hr]
  cases hw : request.page? with
  | some w' =>
    rw [hw] at h
    obtain ⟨_, r', hr', rfl, hs⟩ := (simulates source names rows).turnTo table w' t r ht w s h
    exact ⟨r', hr', hs⟩
  | none =>
    rw [hw] at h
    obtain ⟨n, hn, rfl, rfl⟩ := count_of_turnTo h
    obtain rfl : n = rows := Except.ok.inj (hn.symm.trans (hrows _ (by simp)))
    refine ⟨r, ?_, ⟨ht.table_eq, ht.names_eq, ht.rows_eq, ht.replay⟩⟩
    rw [← ht.rows_eq]
    rfl

end Mirrors

end Recorder

/-- Carries recorded steps out on a fresh query and takes the recorded page of it. -/
def Recording.replay (recording : Recording) (source : Source) (table : String) : Planned :=
  let o := Step.runAll source recording.steps { table }
  match o.failure? with
  | some f => ⟨.error f, o.asked⟩
  | none => ⟨.ok (o.draft.page recording.limit recording.page), o.asked⟩

theorem tableNames_map {chains : List String} (value : String → String) {chain : String}
    (h : chain ∈ chains) :
    tableNames (chains.map fun chain ↦ (chain, value chain)) chain = value chain := by
  rw [tableNames, List.findRev?_eq_find?_reverse]
  cases hfind : (chains.map fun chain ↦ (chain, value chain)).reverse.find? (·.1 == chain) with
  | none =>
    have hitem : (chain, value chain) ∈ (chains.map fun chain ↦ (chain, value chain)).reverse :=
      List.mem_reverse.mpr (List.mem_map.mpr ⟨chain, h, rfl⟩)
    exact absurd (beq_self_eq_true chain) (List.find?_eq_none.mp hfind _ hitem)
  | some item =>
    obtain ⟨other, -, rfl⟩ :=
      List.mem_map.mp (List.mem_reverse.mp (List.mem_of_find?_eq_some hfind))
    have hkey := List.find?_some hfind
    rw [beq_iff_eq] at hkey
    exact congrArg value hkey

section Replay

variable {separator : Char} {source : Source} {table : String} {r : Request} {page : Page}

/-- Names and a number of rows are what the source tells of the chains whose tables a request
needs, and of the query that it counts. -/
structure Request.Told (separator : Char) (source : Source) (table : String) (r : Request)
    (names : List (String × String)) (rows : UInt64) : Prop where
  tables : ∀ chain ∈ Script.lookups r,
    source.schema.tableAt table chain = .ok (tableNames names chain)
  rows : ∀ query ∈ (plan separator source table r).asked, source.count query = .ok rows

theorem exists_told (h : (plan separator source table r).result = .ok page) :
    ∃ names rows, r.Told separator source table names rows := by
  obtain ⟨hrun, -⟩ := plan_ok h rfl
  have hfound := Script.tableAt_of_lookups (firstFailure?_of_outcome hrun)
  have htables : ∀ chain ∈ Script.lookups r, source.schema.tableAt table chain =
      .ok (tableNames ((Script.lookups r).map fun chain ↦
        (chain, Script.found (source.schema.tableAt table) chain)) chain) := by
    intro chain hchain
    rw [tableNames_map _ hchain]
    exact hfound chain hchain
  cases hw : r.page? with
  | some w =>
    refine ⟨_, 0, htables, fun query hquery ↦ ?_⟩
    rw [plan_of_page hrun hw] at hquery
    exact absurd hquery List.not_mem_nil
  | none =>
    have hplan := plan_of_count hrun hw
    rw [hplan] at h
    cases hn : source.count (outcome separator source table r).draft.countSelect with
    | error f => simp [hn, Except.map] at h
    | ok n =>
      refine ⟨_, n, htables, fun query hquery ↦ ?_⟩
      rw [hplan] at hquery
      rw [List.mem_singleton.mp hquery, hn]

/-- A recording keeps nothing but operations, and gives the page again on a fresh query. -/
structure Recording.Replays (recording : Recording) (schema : Catalog) (table : String)
    (page : Page) : Prop where
  operations : Step.operationsAll recording.steps = recording.steps
  page : ∀ count, recording.replay ⟨schema, count⟩ table = ⟨.ok page, []⟩

/-- A recorder that is told what the source tells records the request of every page, and the
recording gives the same page again. -/
theorem record_replays (h : (plan separator source table r).result = .ok page) :
    (∃ names rows, r.Told separator source table names rows) ∧
      ∀ names rows, r.Told separator source table names rows → ∃ recording,
        record separator names rows r = .ok recording ∧
          recording.Replays source.schema table page := by
  refine ⟨exists_told h, fun names rows htold ↦ ?_⟩
  obtain ⟨htables, hrows⟩ := htold
  unfold plan at h hrows
  cases hassemble : source.builder.assemble separator r { draft := { table } } with
  | error f s => simp [hassemble] at h
  | ok w s =>
    rw [hassemble] at h hrows
    obtain rfl := Except.ok.inj h
    obtain ⟨recorder, hrecorder, hmirrors⟩ :=
      Recorder.assemble_mirrors htables hassemble hrows
    have hrecord : record separator names rows r = .ok ⟨recorder.steps, w.limit, w.page⟩ := by
      rw [record, hrecorder]
    refine ⟨_, hrecord, ?_, fun count ↦ ?_⟩
    · exact operationsAll_of_record hrecord
    · rw [Recording.replay, hmirrors.replay]

end Replay

def reading : Request where
  filters := [{ field := "title", operator := "ct", value := "lean" },
    { field := "author.company.name", operator := "in", value := "a|b" },
    { field := "author.posts", operator := "has", connective := .or },
    { field := "blog_tags.label", operator := "sw", value := "p", connective := .or }]
  orders := [{ field := "title" }, { field := "author.name", direction := .descending }]
  includes := ["blog_tags"]

theorem record_replays_reading : ∃ page recording,
    (plan '|' ⟨shelf, fun _ ↦ .ok 2⟩ "posts" reading).result = .ok page ∧
      record '|' [("author", "users"), ("author.company", "companies"), ("blogTags", "tags")] 2
        reading = .ok recording ∧ recording.Replays shelf "posts" page := by
  obtain ⟨page, hpage⟩ : ∃ page,
      (plan '|' ⟨shelf, fun _ ↦ .ok 2⟩ "posts" reading).result = .ok page :=
    ⟨_, plan_ok_iff.mpr rfl⟩
  have hlookups : Script.lookups reading = ["author.company", "blogTags", "author"] := by
    decide +kernel
  have htold : reading.Told '|' ⟨shelf, fun _ ↦ .ok 2⟩ "posts"
      [("author", "users"), ("author.company", "companies"), ("blogTags", "tags")] 2 := by
    constructor
    case tables =>
      rw [hlookups]
      intro chain hchain
      simp only [List.mem_cons, List.not_mem_nil, or_false] at hchain
      rcases hchain with rfl | rfl | rfl
      · rfl
      · rfl
      · rfl
    case rows =>
      intro query _
      rfl
  obtain ⟨-, hrecords⟩ := record_replays hpage
  obtain ⟨recording, hrecord, hreplays⟩ := hrecords _ _ htold
  exact ⟨page, recording, hpage, hrecord, hreplays⟩

end Listing
