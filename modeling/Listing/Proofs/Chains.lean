import Listing.Proofs.Failures
import Listing.Proofs.Meaning
import Listing.Proofs.Operators

namespace Listing

open Sql

def Order.chain (o : Order) : String :=
  ".".intercalate ((Text.parts '.' o.field).dropLast.map Text.camel)

def Path.wholeChain (path : String) : String :=
  ".".intercalate ((Text.parts '.' path).map Text.camel)

/-- A test for existence uses its whole field where there are no dots to take it apart, and other
fields with dots use all but their last segment. -/
inductive Request.Uses (r : Request) : String → Prop
  | has {f : Filter} : f ∈ r.filters → '.' ∉ f.field.toList → f.operator = "has" → Uses r f.field
  | filter {f : Filter} : f ∈ r.filters → '.' ∈ f.field.toList → Uses r f.chain
  | load {path : String} : path ∈ r.includes → path ≠ "" → Uses r (Path.wholeChain path)
  | order {o : Order} : o ∈ r.orders → '.' ∈ o.field.toList → Uses r o.chain

theorem Path.chain?_ofRelation (path : String) :
    (Path.ofRelation path).chain? = if path = "" then none else some (wholeChain path) := by
  by_cases h : path = ""
  · subst h
    rfl
  · have hlength := Text.length_parts '.' path
    have hne : Text.parts '.' path ≠ [] := List.ne_nil_of_length_eq_add_one hlength
    simp [chain?, hasRelations, ofRelation, segments, h, hne, wholeChain]

theorem Order.place_eq (o : Order) : o.place =
    if '.' ∈ o.field.toList then
      .related o.chain { o with field := (Text.parts '.' o.field).getLastD "" }
    else .root o := by
  simp only [place, Path.chain?_ofAttribute, Path.leaf_ofAttribute]
  by_cases hdot : '.' ∈ o.field.toList
  · rw [if_pos hdot, if_pos hdot]
    rfl
  · rw [if_neg hdot, if_neg hdot]

namespace Request

variable (r : Request)

def hasChains : List String :=
  ((r.filters.filter fun f ↦ ¬ f.IsRelated).filter (·.operator = "has")).map (·.onListing.field)

def walked : List String :=
  r.hasChains ++ r.opened .and ++ r.opened .or ++ r.relatedOrders.map (·.1) ++ r.loadedChains

theorem mem_hasChains {chain : String} : chain ∈ r.hasChains ↔
    ∃ f ∈ r.filters, f.operator = "has" ∧ f.onListing.field = chain := by
  simp only [hasChains, List.mem_map, List.mem_filter, decide_eq_true_eq]
  constructor
  · rintro ⟨f, ⟨⟨hf, -⟩, hop⟩, rfl⟩
    exact ⟨f, hf, hop, rfl⟩
  · rintro ⟨f, hf, hop, rfl⟩
    exact ⟨f, ⟨⟨hf, fun hr ↦ hr.2 hop⟩, hop⟩, rfl⟩

theorem mem_relatedOrders {chain : String} : chain ∈ r.relatedOrders.map (·.1) ↔
    ∃ o ∈ r.orders, '.' ∈ o.field.toList ∧ o.chain = chain := by
  have hkeys : r.relatedOrders.map (·.1) =
      ((r.orders.filterMap (·.place.related?)).map (·.1)).eraseDups := by
    rw [relatedOrders, byChain, List.map_map]
    exact List.map_id _
  rw [hkeys, List.mem_eraseDups, List.mem_map]
  constructor
  · rintro ⟨⟨_, item⟩, hitem, rfl⟩
    obtain ⟨o, ho, hplace⟩ := List.mem_filterMap.mp hitem
    rw [Order.place_eq] at hplace
    by_cases hdot : '.' ∈ o.field.toList
    · rw [if_pos hdot] at hplace
      exact ⟨o, ho, hdot, congrArg Prod.fst (Option.some.inj hplace)⟩
    · rw [if_neg hdot] at hplace
      exact absurd hplace.symm (Option.some_ne_none _)
  · rintro ⟨o, ho, hdot, rfl⟩
    refine ⟨(o.chain, { o with field := (Text.parts '.' o.field).getLastD "" }), ?_, rfl⟩
    refine List.mem_filterMap.mpr ⟨o, ho, ?_⟩
    rw [Order.place_eq, if_pos hdot]
    rfl

theorem mem_includedChains {chain : String} : chain ∈ r.includedChains ↔
    ∃ path ∈ r.includes, path ≠ "" ∧ Path.wholeChain path = chain := by
  rw [includedChains, List.mem_filterMap]
  refine exists_congr fun path ↦ and_congr_right fun _ ↦ ?_
  rw [Path.chain?_ofRelation]
  split <;> simp_all

theorem mem_loadedChains {chain : String} : chain ∈ r.loadedChains ↔
    chain ∈ r.includedChains ∨ chain ∈ r.relatedOrders.map (·.1) := by
  rw [loadedChains, List.mem_eraseDups, List.mem_append]

theorem opened_uses {c : Connective} {chain : String} (h : chain ∈ r.opened c) : r.Uses chain := by
  have hby : chain ∈ r.chainsBy c := by
    cases c with
    | and => exact h
    | or => exact (List.mem_filter.mp h).1
  obtain ⟨f, hf, rfl⟩ := r.mem_chainsBy.mp hby
  obtain ⟨hmem, hrelated, -⟩ := r.mem_relatedBy.mp hf
  exact .filter hmem hrelated.1

theorem mem_opened_of_related {f : Filter} (hf : f ∈ r.filters) (hrelated : f.IsRelated) :
    f.chain ∈ r.opened .and ∨ f.chain ∈ r.opened .or := by
  have hby : f.chain ∈ r.chainsBy f.connective :=
    r.mem_chainsBy.mpr ⟨f, r.mem_relatedBy.mpr ⟨hf, hrelated, rfl⟩, rfl⟩
  by_cases hand : f.chain ∈ r.chainsBy .and
  · exact .inl hand
  · refine .inr (List.mem_filter.mpr ⟨?_, decide_eq_true hand⟩)
    cases hc : f.connective with
    | and => exact absurd (hc ▸ hby) hand
    | or => exact hc ▸ hby
theorem mem_walked {chain : String} : chain ∈ r.walked ↔ r.Uses chain := by
  simp only [walked, List.mem_append]
  constructor
  · rintro ((((hhas | hand) | hor) | horder) | hload)
    · obtain ⟨f, hf, hop, rfl⟩ := r.mem_hasChains.mp hhas
      by_cases hdot : '.' ∈ f.field.toList
      · rw [Filter.onListing, if_pos hdot]
        exact .filter hf hdot
      · rw [Filter.onListing, if_neg hdot]
        exact .has hf hdot hop
    · exact r.opened_uses hand
    · exact r.opened_uses hor
    · obtain ⟨o, ho, hdot, rfl⟩ := r.mem_relatedOrders.mp horder
      exact .order ho hdot
    · rcases r.mem_loadedChains.mp hload with hincluded | horder
      · obtain ⟨path, hpath, hne, rfl⟩ := r.mem_includedChains.mp hincluded
        exact .load hpath hne
      · obtain ⟨o, ho, hdot, rfl⟩ := r.mem_relatedOrders.mp horder
        exact .order ho hdot
  · intro h
    cases h with
    | @has f hf hdot hop =>
      have hfield : f.onListing.field = f.field := by rw [Filter.onListing, if_neg hdot]
      exact .inl (.inl (.inl (.inl (r.mem_hasChains.mpr ⟨f, hf, hop, hfield⟩))))
    | @filter f hf hdot =>
      by_cases hop : f.operator = "has"
      · have hfield : f.onListing.field = f.chain := by rw [Filter.onListing, if_pos hdot]
        exact .inl (.inl (.inl (.inl (r.mem_hasChains.mpr ⟨f, hf, hop, hfield⟩))))
      · rcases r.mem_opened_of_related hf ⟨hdot, hop⟩ with hand | hor
        · exact .inl (.inl (.inl (.inr hand)))
        · exact .inl (.inl (.inr hor))
    | load hpath hne =>
      exact .inr (r.mem_loadedChains.mpr (.inl (r.mem_includedChains.mpr ⟨_, hpath, hne, rfl⟩)))
    | order ho hdot => exact .inl (.inr (r.mem_relatedOrders.mpr ⟨_, ho, hdot, rfl⟩))

end Request

namespace Script

variable (separator : Char) (catalog : Catalog) (table : String)

theorem fault?_filterStep {f : Filter} (h : ¬ f.IsUnsupported) :
    (filterStep separator f).fault? catalog table =
      if f.operator = "has" then catalog.fault? table f.field else none := by
  cases ho : Operator.ofCode f.operator with
  | error e => exact absurd (Operator.ofCode_eq_error.mp ho).1 h
  | ok op =>
    have hcode : op.code = f.operator := Operator.code_of_ofCode ho
    have hpredicate : f.predicate separator = .ok ⟨f.test separator op, f.connective⟩ := by
      rw [Filter.predicate, ho]
      rfl
    rw [filterStep, hpredicate, Step.fault?, ← hcode]
    cases op with
    | has => exact Failure.of?_map _ _
    | _ => rfl

variable {catalog table} in
theorem fault?_existingStep {c : Connective} {chain storage : String} {filters : List Filter}
    (hchain : catalog.fault? table chain = none)
    (h : ∀ f ∈ filters, ¬ f.IsUnsupported ∧ f.operator ≠ "has") :
    (existingStep separator c chain storage filters).fault? catalog table = none := by
  obtain ⟨hops, hr⟩ := Failure.of?_eq_none.mp hchain
  rw [existingStep, Step.fault?, hr]
  refine Step.firstFault?_map_eq_none.mpr fun f hf ↦ ?_
  obtain ⟨hsupported, hop⟩ := h f hf
  have hplaced : ¬ { f with field := Path.qualify storage f.field : Filter }.IsUnsupported :=
    hsupported
  have hfilter := fault?_filterStep separator catalog (Catalog.lastTable table hops) hplaced
  rw [if_neg hop] at hfilter
  rw [Step.fault?, Step.firstFault?, Step.firstFault?, hfilter]
  rfl

theorem of?_withTables {α : Type} (items : List (String × α)) :
    Failure.of? (withTables (catalog.tableAt table) items) =
      (items.map (·.1)).findSome? (catalog.fault? table) := by
  induction items with
  | nil => rfl
  | cons item more ih =>
    have hfault : catalog.fault? table item.1 = Failure.of? (catalog.tableAt table item.1) :=
      (Failure.of?_map _ _).symm
    rw [withTables_cons, List.map_cons, List.findSome?_cons, hfault, ← ih]
    cases catalog.tableAt table item.1 with
    | error f => rfl
    | ok found => exact Failure.of?_map _ _

theorem withTables_named {α : Type} {tableAt : String → Except Failure String}
    {items : List (String × α)} {named : List (String × String × α)}
    (h : withTables tableAt items = .ok named) :
    named = items.map fun (chain, item) ↦ (chain, found tableAt chain, item) := by
  have hfound := withTables_found h
  rw [withTables_ok] at hfound
  exact (Except.ok.inj hfound).symm

theorem firstFault?_includeSteps (r : Request) : Step.firstFault? catalog table
    (includeSteps (catalog.tableAt table) r) =
      (r.relatedOrders.map (·.1) ++ r.loadedChains).findSome? (catalog.fault? table) := by
  have hfaults := of?_withTables catalog table r.relatedOrders
  have hinclude (named : List (String × String × List Order)) (chain : String) :
      Step.includeFault? catalog table (includeOf named chain) = catalog.fault? table chain := by
    unfold includeOf
    split
    · rfl
    · simp only [Step.includeFault?, Catalog.fault?]
      cases catalog.resolve table chain with
      | error f => rfl
      | ok hops =>
        exact Step.firstFault?_map_eq_none.mpr fun _ _ ↦ rfl
  unfold includeSteps
  rw [List.findSome?_append]
  by_cases hempty : r.loadedChains.isEmpty
  · have hnil := List.isEmpty_iff.mp hempty
    rw [if_pos hempty, Request.relatedOrders_eq_nil hnil, hnil]
    rfl
  · rw [if_neg hempty, ← hfaults]
    cases hw : withTables (catalog.tableAt table) r.relatedOrders with
    | error f => rfl
    | ok named =>
      simp only [Step.firstFault?, Step.fault?, Step.includesFault?_eq, List.findSome?_map,
        Failure.of?, Option.none_or, Option.or_none]
      exact congrArg (List.findSome? · r.loadedChains) (funext (hinclude named))

section Supported

variable {r : Request} (hsupported : ∀ f ∈ r.filters, ¬ f.IsUnsupported)
include hsupported

theorem firstFault?_roots :
    Step.firstFault? catalog table (r.rootFilters.map (filterStep separator)) =
      r.hasChains.findSome? (catalog.fault? table) := by
  have hroots : ∀ f ∈ r.filters.filter fun f ↦ ¬ f.IsRelated, ¬ f.IsUnsupported :=
    fun f hf ↦ hsupported f (List.mem_filter.mp hf).1
  rw [Step.firstFault?_eq, r.rootFilters_eq, Request.hasChains, List.map_map, List.findSome?_map,
    List.findSome?_map]
  generalize r.filters.filter (fun f ↦ ¬ f.IsRelated) = roots at hroots ⊢
  induction roots with
  | nil => rfl
  | cons f more ih =>
    obtain ⟨hf, hmore⟩ := List.forall_mem_cons.mp hroots
    have hlisting : ¬ f.onListing.IsUnsupported ∧ f.onListing.operator = f.operator := by
      unfold Filter.onListing
      split <;> exact ⟨hf, rfl⟩
    have hfault := fault?_filterStep separator catalog table hlisting.1
    rw [hlisting.2] at hfault
    rw [List.findSome?_cons, ih hmore, Function.comp_apply, Function.comp_apply, hfault]
    by_cases hop : f.operator = "has"
    · rw [if_pos hop, List.filter_cons_of_pos (by simpa using hop), List.findSome?_cons,
        Function.comp_apply]
    · rw [if_neg hop, List.filter_cons_of_neg (by simpa using hop)]

theorem firstFault?_relatedSteps (c : Connective) :
    Step.firstFault? catalog table
        (relatedSteps separator (catalog.tableAt table) c (r.groups c)) =
      (r.opened c).findSome? (catalog.fault? table) := by
  have hchains : (r.groups c).map (·.1) = r.opened c := by
    rw [r.groups_eq, List.map_map]
    exact List.map_id _
  have hfaults := of?_withTables catalog table (r.groups c)
  rw [hchains] at hfaults
  unfold relatedSteps
  by_cases hempty : (r.groups c).isEmpty
  · rw [if_pos hempty, ← hchains, List.isEmpty_iff.mp hempty]
    rfl
  · rw [if_neg hempty, ← hfaults]
    cases hw : withTables (catalog.tableAt table) (r.groups c) with
    | error f => rfl
    | ok named =>
      rw [hw] at hfaults
      have hnone : ∀ group ∈ named,
          (existingStep separator c group.1 group.2.1 group.2.2).fault? catalog table = none := by
        intro group hgroup
        rw [withTables_named hw, r.groups_eq, List.map_map] at hgroup
        obtain ⟨chain, hchain, rfl⟩ := List.mem_map.mp hgroup
        have hleads := List.findSome?_eq_none_iff.mp hfaults.symm chain hchain
        refine fault?_existingStep separator hleads ?_
        intro g hg
        obtain ⟨f, hf, rfl⟩ := List.mem_map.mp hg
        obtain ⟨hmem, hrelated, -⟩ := r.mem_relatedBy.mp (List.mem_filter.mp hf).1
        exact ⟨hsupported f hmem, hrelated.2⟩
      rw [Step.firstFault?, Step.fault?, Step.firstFault?, Option.or_none]
      exact Step.firstFault?_map_eq_none.mpr hnone

theorem firstFault?_ofRequest : Step.firstFault? catalog table
    (ofRequest separator (catalog.tableAt table) r).steps =
      r.walked.findSome? (catalog.fault? table) := by
  have happend (steps more : List Step) : Step.firstFault? catalog table (steps ++ more) =
      (Step.firstFault? catalog table steps).or (Step.firstFault? catalog table more) := by
    simp only [Step.firstFault?_eq, List.findSome?_append]
  have hroots := firstFault?_roots separator catalog table hsupported
  have hand := firstFault?_relatedSteps separator catalog table hsupported .and
  have hor := firstFault?_relatedSteps separator catalog table hsupported .or
  have hincludes := firstFault?_includeSteps catalog table r
  have horders : Step.firstFault? catalog table (r.rootOrders.map Step.order) = none :=
    Step.firstFault?_map_eq_none.mpr fun _ _ ↦ rfl
  have hpage : Step.firstFault? catalog table (pageSteps r.page?) = none := by
    cases r.page? <;> rfl
  simp only [Request.groups] at hand hor
  simp only [ofRequest, happend, hroots, horders, hand, hor, hincludes, hpage, Option.or_none,
    Option.none_or, Request.walked, List.append_assoc, List.findSome?_append]

end Supported

end Script

def Request.Resolves (r : Request) (catalog : Catalog) (table : String) : Prop :=
  ∀ chain, r.Uses chain → ∃ hops, catalog.resolve table chain = .ok hops

section Plan

variable (separator : Char) (source : Source) (table : String) {r : Request}

theorem failure?_outcome (hsupported : ∀ f ∈ r.filters, ¬ f.IsUnsupported) :
    (outcome separator source table r).failure? =
      r.walked.findSome? (source.schema.fault? table) := by
  have hcounts := Script.countsAny_ofRequest separator (source.schema.tableAt table) r
  have hstatic := Step.failure?_runAll source _ hcounts { table }
  rw [outcome, hstatic]
  exact Script.firstFault?_ofRequest separator source.schema table hsupported

theorem failure?_outcome_eq_none (hsupported : ∀ f ∈ r.filters, ¬ f.IsUnsupported) :
    (outcome separator source table r).failure? = none ↔ r.Resolves source.schema table := by
  rw [failure?_outcome separator source table hsupported, List.findSome?_eq_none_iff]
  constructor
  · intro h chain hchain
    exact Failure.of?_eq_none.mp (h chain (r.mem_walked.mpr hchain))
  · intro h chain hchain
    exact Failure.of?_eq_none.mpr (h chain (r.mem_walked.mp hchain))

theorem Request.page?_eq_none : r.page? = none ↔ ∀ w ∈ r.window?, w.limit = 0 := by
  rw [page?, Option.filter_eq_none_iff]
  refine forall_congr' fun w ↦ imp_congr_right fun _ ↦ ?_
  rw [decide_eq_true_eq, UInt64.not_lt, UInt64.le_iff_toNat_le, ← UInt64.toNat_inj]
  exact Nat.le_zero

theorem plan_of_unresolved (hsupported : ∀ f ∈ r.filters, ¬ f.IsUnsupported)
    (h : ¬ r.Resolves source.schema table) : ∃ chain owner name, r.Uses chain ∧
      source.schema.resolve table chain = .error (.unknownRelation owner name) ∧
        plan separator source table r = ⟨.error (.unknownRelation owner name), []⟩ := by
  rw [← failure?_outcome_eq_none separator source table hsupported] at h
  obtain ⟨f, hf⟩ := Option.ne_none_iff_exists'.mp h
  have hwalked := hf
  rw [failure?_outcome separator source table hsupported] at hwalked
  obtain ⟨chain, hchain, hfault⟩ := List.exists_of_findSome?_eq_some hwalked
  have herror := Failure.of?_eq_some.mp hfault
  obtain ⟨owner, name, rfl⟩ := Catalog.walk_error herror
  exact ⟨chain, owner, name, r.mem_walked.mp hchain, herror, plan_of_failure hf⟩

theorem plan_of_resolved (hsupported : ∀ f ∈ r.filters, ¬ f.IsUnsupported)
    (h : r.Resolves source.schema table) :
    ((∀ w ∈ r.window?, w.limit = 0) ∧ ∃ (query : Select) (d : Draft),
      plan separator source table r = ⟨(source.count query).map fun n ↦ d.page n 1, [query]⟩) ∨
    ((∃ w ∈ r.window?, w.limit ≠ 0) ∧ ∃ page, plan separator source table r = ⟨.ok page, []⟩) := by
  have hrun := (failure?_outcome_eq_none separator source table hsupported).mpr h
  by_cases hw : ∀ w ∈ r.window?, w.limit = 0
  · exact .inl ⟨hw, _, _, plan_of_count hrun (Request.page?_eq_none.mpr hw)⟩
  · have hpage : r.page? ≠ none := fun hnone ↦ hw (Request.page?_eq_none.mp hnone)
    obtain ⟨w, hwindow⟩ := Option.ne_none_iff_exists'.mp hpage
    push Not at hw
    exact .inr ⟨hw, _, plan_of_page hrun hwindow⟩

/-- How the plan of a request ends, all of whose operators are known. -/
structure Planned.Ends (source : Source) (table : String) (r : Request) (planned : Planned) :
    Prop where
  unknown : ¬ r.Resolves source.schema table ↔
    ∃ owner name, planned = ⟨.error (.unknownRelation owner name), []⟩
  cause : ¬ r.Resolves source.schema table → ∃ chain f, r.Uses chain ∧
    source.schema.resolve table chain = .error f ∧ planned.result = .error f
  unpaged : r.Resolves source.schema table → (∀ w ∈ r.window?, w.limit = 0) →
    ∃ query, planned.asked = [query] ∧
      (∀ f, planned.result = .error f ↔ source.count query = .error f) ∧
      ((∃ page, planned.result = .ok page) ↔ ∃ n, source.count query = .ok n)
  paged : r.Resolves source.schema table → (∃ w ∈ r.window?, w.limit ≠ 0) →
    planned.asked = [] ∧ ∃ page, planned.result = .ok page
  unknown_iff : (∀ query owner name, source.count query ≠ .error (.unknownRelation owner name)) →
    (¬ r.Resolves source.schema table ↔
      ∃ owner name, planned.result = .error (.unknownRelation owner name))

/-- A request fails with an unknown relation if and only if one of its chains leads nowhere. If
all lead somewhere, it fails only where it needs the counter and the counter fails. -/
theorem plan_ends (hsupported : ∀ f ∈ r.filters, ¬ f.IsUnsupported) :
    (plan separator source table r).Ends source table r := by
  have hunresolved := plan_of_unresolved separator source table hsupported
  have hresolved := plan_of_resolved separator source table hsupported
  constructor
  case unknown =>
    constructor
    · intro h
      obtain ⟨chain, owner, name, -, -, hplan⟩ := hunresolved h
      exact ⟨owner, name, hplan⟩
    · rintro ⟨owner, name, hplan⟩ h
      rw [hplan] at hresolved
      rcases hresolved h with ⟨-, query, d, hq⟩ | ⟨-, page, hp⟩
      · exact absurd (congrArg Planned.asked hq).symm (List.cons_ne_nil query [])
      · cases congrArg Planned.result hp
  case cause =>
    intro h
    obtain ⟨chain, owner, name, huses, herror, hplan⟩ := hunresolved h
    exact ⟨chain, _, huses, herror, congrArg Planned.result hplan⟩
  case unpaged =>
    intro h hw
    rcases hresolved h with ⟨-, query, d, hplan⟩ | ⟨⟨w, hmem, hne⟩, -⟩
    · rw [hplan]
      refine ⟨query, rfl, ?_⟩
      cases source.count query <;> simp [Except.map]
    · exact absurd (hw w hmem) hne
  case paged =>
    intro h hw
    rcases hresolved h with ⟨hzero, -⟩ | ⟨-, page, hplan⟩
    · obtain ⟨w, hmem, hne⟩ := hw
      exact absurd (hzero w hmem) hne
    · rw [hplan]
      exact ⟨rfl, page, rfl⟩
  case unknown_iff =>
    intro hcount
    constructor
    · intro h
      obtain ⟨chain, owner, name, -, -, hplan⟩ := hunresolved h
      exact ⟨owner, name, congrArg Planned.result hplan⟩
    · rintro ⟨owner, name, hresult⟩ h
      rcases hresolved h with ⟨-, query, d, hplan⟩ | ⟨-, page, hplan⟩
      · rw [hplan] at hresult
        cases hc : source.count query with
        | error f =>
          have hf : f = .unknownRelation owner name := by simpa [hc, Except.map] using hresult
          exact hcount query owner name (hf ▸ hc)
        | ok n => simp [hc, Except.map] at hresult
      · rw [hplan] at hresult
        cases hresult

end Plan

def misplaced : Request where
  filters := { field := "author.posts", operator := "has" } :: search.filters
  orders := [{ field := "editor.name" }]

def closed : Source := { blog with count := fun _ ↦ .error (.rowCount "closed") }

theorem plan_ends_misplaced :
    (∀ f ∈ misplaced.filters, ¬ f.IsUnsupported) ∧ ¬ misplaced.Resolves blog.schema "posts" ∧
      (∃ owner name, plan '|' blog "posts" misplaced =
        ⟨.error (.unknownRelation owner name), []⟩) ∧
      search.Resolves closed.schema "posts" ∧
        (plan '|' closed "posts" search).result = .error (.rowCount "closed") := by
  have hmisplaced : ∀ f ∈ misplaced.filters, ¬ f.IsUnsupported := by decide +kernel
  have hsearch : ∀ f ∈ search.filters, ¬ f.IsUnsupported := by decide +kernel
  have hstray : ¬ misplaced.Resolves blog.schema "posts" := by
    intro h
    have hfault : blog.schema.fault? "posts" "editor" = some (.unknownRelation "posts" "editor") :=
      by decide +kernel
    obtain ⟨hops, hr⟩ := h "editor" (misplaced.mem_walked.mp (by decide +kernel))
    rw [Failure.of?_eq_some.mp hfault] at hr
    cases hr
  have hresolves : search.Resolves closed.schema "posts" := by
    intro chain huses
    have hwalked : ∀ chain ∈ search.walked, closed.schema.fault? "posts" chain = none := by
      decide +kernel
    exact Failure.of?_eq_none.mp (hwalked chain (search.mem_walked.mpr huses))
  obtain ⟨query, -, herror, -⟩ := (plan_ends '|' closed "posts" hsearch).unpaged hresolves
    fun w hw ↦ absurd hw (Option.not_mem_none w)
  exact ⟨hmisplaced, hstray, (plan_ends '|' blog "posts" hmisplaced).unknown.mp hstray, hresolves,
    (herror (.rowCount "closed")).mpr rfl⟩

end Listing
