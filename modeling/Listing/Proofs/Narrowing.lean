import Listing.Proofs.Chains

namespace Listing

open Sql

section Outcome

variable {separator : Char} {source : Source} {table : String} {r : Request}

theorem supported_of_outcome (h : (outcome separator source table r).failure? = none) :
    ∀ f ∈ r.filters, ¬ r.Skips f → ¬ f.IsUnsupported := by
  have hscript := firstFailure?_of_outcome h
  rw [script_of_outcome h] at hscript
  exact (Script.firstFailure?_eq_none separator _ r).mp hscript

theorem truth_of_outcome (h : (outcome separator source table r).failure? = none) {α : Type}
    (db : Database α) (ρ : Rows α) : (outcome separator source table r).draft.truth db ρ =
      r.truth separator source.schema db table ρ := by
  have hscript := script_of_outcome h
  unfold outcome at h ⊢
  rw [hscript] at h ⊢
  exact (Step.truth_runAll db ρ source _ table h).trans
    (Script.reads_ofRequest db ρ rfl (Step.succeeds_of_mem h))

theorem exists_page (h : (outcome separator source table r).failure? = none)
    (hcount : ∀ query ∈ (plan separator source table r).asked, ∃ n, source.count query = .ok n) :
    ∃ page, (plan separator source table r).result = .ok page := by
  cases hw : r.page? with
  | some w => exact ⟨_, congrArg Planned.result (plan_of_page h hw)⟩
  | none =>
    have hplan := plan_of_count h hw
    rw [hplan] at hcount ⊢
    obtain ⟨n, hn⟩ := hcount _ (List.mem_singleton_self _)
    exact ⟨_, congrArg (Except.map _) hn⟩

end Outcome

namespace Request

def IsConjoined (r : Request) : Prop := ∀ f ∈ r.filters, f.connective = .and

variable {separator : Char} {catalog : Catalog} {table : String} {r r' : Request}

theorem IsConjoined.not_skips (h : r.IsConjoined) {f : Filter} (hf : f ∈ r.filters) :
    ¬ r.Skips f := by
  rintro ⟨-, hor, -⟩
  rw [h f hf] at hor
  cases hor

theorem IsConjoined.mem_conjoinedChains {chain : String} (h : r.IsConjoined) :
    chain ∈ r.conjoinedChains ↔ ∃ f ∈ r.filters, f.IsRelated ∧ f.chain = chain := by
  rw [conjoinedChains, List.mem_toFinset, List.mem_map]
  constructor
  · rintro ⟨f, hf, rfl⟩
    obtain ⟨hmem, hrelated, -⟩ := r.mem_relatedBy.mp hf
    exact ⟨f, hmem, hrelated, rfl⟩
  · rintro ⟨f, hf, hrelated, rfl⟩
    exact ⟨f, r.mem_relatedBy.mpr ⟨hf, hrelated, h f hf⟩, rfl⟩

theorem IsConjoined.disjoinedChains (h : r.IsConjoined) : r.disjoinedChains = ∅ := by
  have hnone : r.relatedBy .or = [] := by
    refine List.filter_eq_nil_iff.mpr fun f hf hor ↦ ?_
    rw [decide_eq_true_eq, h f hf] at hor
    cases hor.2
  rw [Request.disjoinedChains, hnone, List.map_nil, List.toFinset_nil, Finset.empty_sdiff]

section Truth

variable {α : Type} {db : Database α} {ρ : Rows α}

theorem chainTruth_anti {c : Connective} {chain : String} (h : r.along c chain ⊆ r'.along c chain) :
    r'.chainTruth separator catalog db table ρ c chain ≤
      r.chainTruth separator catalog db table ρ c chain := by
  unfold chainTruth
  cases catalog.resolve table chain with
  | error f => exact le_rfl
  | ok hops => exact db.reaches_mono fun ρ ↦ Truth.all_anti (List.map_subset _ h)

theorem IsConjoined.truth_eq (h : r.IsConjoined) : r.truth separator catalog db table ρ =
    .all ((r.filters.filter (¬ ·.IsRelated)).map fun f ↦
        f.listingTruth separator catalog db table ρ) ⊓
      r.conjoinedChains.inf (r.chainTruth separator catalog db table ρ .and) := by
  have hroots : (r.filters.filter (¬ ·.IsRelated)).map (fun f ↦
      (f.connective, f.listingTruth separator catalog db table ρ)) =
        ((r.filters.filter (¬ ·.IsRelated)).map fun f ↦
          f.listingTruth separator catalog db table ρ).map (.and, ·) := by
    rw [List.map_map]
    exact List.map_congr_left fun f hf ↦ congrArg (·, _) (h f (List.mem_filter.mp hf).1)
  rw [truth, h.disjoinedChains, if_pos rfl, List.append_nil, hroots]
  by_cases hchains : r.conjoinedChains = ∅
  · rw [if_pos hchains, List.append_nil, Truth.read_and, hchains, Finset.inf_empty, inf_top_eq]
  · rw [if_neg hchains]
    change Truth.read (_ ++ [_].map (Connective.and, ·)) = _
    rw [← List.map_append, Truth.read_and, Truth.all_append, Truth.all_cons, Truth.all_nil,
      inf_top_eq]

theorem IsConjoined.le_truth (h : r.IsConjoined) {t : Truth} :
    t ≤ r.truth separator catalog db table ρ ↔
      (∀ f ∈ r.filters, ¬ f.IsRelated → t ≤ f.listingTruth separator catalog db table ρ) ∧
        ∀ f ∈ r.filters, f.IsRelated →
          t ≤ r.chainTruth separator catalog db table ρ .and f.chain := by
  rw [h.truth_eq, le_inf_iff, Truth.le_all, List.forall_mem_map, Finset.le_inf_iff]
  simp only [List.mem_filter, decide_eq_true_eq, and_imp, h.mem_conjoinedChains]
  refine and_congr_right fun _ ↦ ⟨fun hall f hf hrelated ↦ hall _ ⟨f, hf, hrelated, rfl⟩, ?_⟩
  rintro hall chain ⟨f, hf, hrelated, rfl⟩
  exact hall f hf hrelated

theorem IsConjoined.truth_anti (h : r.IsConjoined) (h' : r'.IsConjoined)
    (hsub : r.filters ⊆ r'.filters) : r'.truth separator catalog db table ρ ≤
      r.truth separator catalog db table ρ := by
  obtain ⟨hroots, hchains⟩ := h'.le_truth.mp
    (le_refl (r'.truth separator catalog db table ρ))
  refine h.le_truth.mpr ⟨fun f hf hroot ↦ hroots f (hsub hf) hroot, fun f hf hrelated ↦ ?_⟩
  refine (hchains f (hsub hf) hrelated).trans (chainTruth_anti fun g hg ↦ ?_)
  obtain ⟨hby, hchain⟩ := List.mem_filter.mp hg
  obtain ⟨hmem, hg, hand⟩ := r.mem_relatedBy.mp hby
  exact List.mem_filter.mpr ⟨r'.mem_relatedBy.mpr ⟨hsub hmem, hg, hand⟩, hchain⟩

end Truth

theorem Uses.of_subset {filters : List Filter} (hsub : filters ⊆ r.filters) {chain : String}
    (h : { r with filters }.Uses chain) : r.Uses chain := by
  cases h with
  | has hf hdot hop => exact .has (hsub hf) hdot hop
  | filter hf hdot => exact .filter (hsub hf) hdot
  | load hpath hne => exact .load hpath hne
  | order ho hdot => exact .order ho hdot

end Request

/-- What a page of conjoined filters has to do with the pages of requests that hold the same
filters in another order, or one more of them. A counter may fail on the other query, but nothing
else does. -/
structure Page.Narrows (separator : Char) (source : Source) (table : String) (r : Request)
    (page : Page) : Prop where
  permuted : ∀ filters : List Filter, filters.Perm r.filters →
    (∀ query ∈ (plan separator source table { r with filters }).asked,
      ∃ n, source.count query = .ok n) →
    ∃ page', (plan separator source table { r with filters }).result = .ok page'
  same : ∀ (filters : List Filter) (page' : Page), filters.Perm r.filters →
    (plan separator source table { r with filters }).result = .ok page' →
    ∀ {α : Type} (db : Database α) (ρ : Rows α),
      page'.select.truth db ρ = page.select.truth db ρ ∧
        page'.count.truth db ρ = page.count.truth db ρ
  narrowed : ∀ (before after : List Filter) (f : Filter) (page' : Page),
    before ++ after = r.filters → f.connective = .and →
    (plan separator source table { r with filters := before ++ f :: after }).result = .ok page' →
    ∀ {α : Type} (db : Database α) (ρ : Rows α),
      page'.select.truth db ρ ≤ page.select.truth db ρ ∧
        page'.count.truth db ρ ≤ page.count.truth db ρ

section Plan

variable {separator : Char} {source : Source} {table : String} {r : Request}

theorem failure?_outcome_of_perm (hand : r.IsConjoined)
    (h : (outcome separator source table r).failure? = none) {filters : List Filter}
    (hperm : filters.Perm r.filters) :
    (outcome separator source table { r with filters }).failure? = none := by
  have hsupported : ∀ f ∈ r.filters, ¬ f.IsUnsupported := fun f hf ↦
    supported_of_outcome h f hf (hand.not_skips hf)
  have hresolves := (failure?_outcome_eq_none separator source table hsupported).mp h
  apply (failure?_outcome_eq_none separator source table _).mpr
  · exact fun chain huses ↦ hresolves chain (huses.of_subset hperm.subset)
  · exact fun f hf ↦ hsupported f (hperm.subset hf)

theorem truth_le_of_plan {r' : Request} {page page' : Page}
    (h : (plan separator source table r).result = .ok page)
    (h' : (plan separator source table r').result = .ok page') {α : Type} {db : Database α}
    {ρ : Rows α} (hle : r'.truth separator source.schema db table ρ ≤
      r.truth separator source.schema db table ρ) :
    page'.select.truth db ρ ≤ page.select.truth db ρ ∧
      page'.count.truth db ρ ≤ page.count.truth db ρ := by
  obtain ⟨hrun, limit, number, rfl⟩ := plan_ok h rfl
  obtain ⟨hrun', limit', number', rfl⟩ := plan_ok h' rfl
  rw [← truth_of_outcome hrun, ← truth_of_outcome hrun'] at hle
  obtain ⟨hselect, hcount⟩ :=
    Draft.truth_page db ρ (outcome separator source table r).draft limit number
  obtain ⟨hselect', hcount'⟩ :=
    Draft.truth_page db ρ (outcome separator source table r').draft limit' number'
  rw [← hselect, ← hselect'] at hle
  exact ⟨hle, hcount'.trans_le (hselect'.symm.trans_le (hle.trans_eq (hselect.trans hcount.symm)))⟩

/-- The order of conjoined filters is of no account, and each filter more narrows the page. -/
theorem plan_narrows {page : Page} (hand : r.IsConjoined)
    (h : (plan separator source table r).result = .ok page) :
    page.Narrows separator source table r := by
  constructor
  case permuted =>
    intro filters hperm hcount
    exact exists_page (failure?_outcome_of_perm hand (plan_ok h rfl).1 hperm) hcount
  case same =>
    intro filters page' hperm h' α db ρ
    have hand' : { r with filters }.IsConjoined := fun f hf ↦ hand f (hperm.subset hf)
    obtain ⟨hselect, hcount⟩ := truth_le_of_plan h h' (hand.truth_anti hand' hperm.symm.subset)
    obtain ⟨hselect', hcount'⟩ := truth_le_of_plan h' h (hand'.truth_anti hand hperm.subset)
    exact ⟨le_antisymm hselect hselect', le_antisymm hcount hcount'⟩
  case narrowed =>
    intro before after f page' hfilters hf h' α db ρ
    have hmem (g : Filter) : g ∈ before ++ f :: after ↔ g = f ∨ g ∈ r.filters := by
      rw [← hfilters, ← List.mem_cons]
      exact List.perm_middle.mem_iff
    have hand' : { r with filters := before ++ f :: after }.IsConjoined := by
      intro g hg
      rcases (hmem g).mp hg with rfl | hg
      · exact hf
      · exact hand g hg
    exact truth_le_of_plan h h' (hand.truth_anti hand' fun g hg ↦ (hmem g).mpr (.inr hg))

end Plan

def narrow : Request where
  filters := [{ field := "title", operator := "ct", value := "lean" },
    { field := "author.name", operator := "eq", value := "x" },
    { field := "blogTags", operator := "has" },
    { field := "author.age", operator := "gt", value := "1" }]

def narrower : Request where
  filters := [{ field := "title", operator := "ct", value := "lean" },
    { field := "author.name", operator := "eq", value := "x" },
    { field := "author.email", operator := "null" },
    { field := "blogTags", operator := "has" },
    { field := "author.age", operator := "gt", value := "1" }]

theorem plan_narrows_posts : narrow.IsConjoined ∧
    ∃ page, (plan '|' blog "posts" narrow).result = .ok page ∧
      page.select.truth Database.flags (fun _ _ ↦ some true) = ⊤ ∧
      (∃ page', (plan '|' blog "posts"
          { narrow with filters := narrow.filters.reverse }).result = .ok page' ∧
        ∀ {α : Type} (db : Database α) (ρ : Rows α),
          page'.select.truth db ρ = page.select.truth db ρ) ∧
      ∃ page', (plan '|' blog "posts" narrower).result = .ok page' ∧
        page'.select.truth Database.flags (fun _ _ ↦ some true) = ⊥ ∧
        ∀ {α : Type} (db : Database α) (ρ : Rows α),
          page'.select.truth db ρ ≤ page.select.truth db ρ := by
  have hand : ∀ f ∈ narrow.filters, f.connective = .and := by decide
  obtain ⟨page, hpage⟩ : ∃ page, (plan '|' blog "posts" narrow).result = .ok page :=
    ⟨_, plan_ok_iff.mpr rfl⟩
  obtain ⟨page', hpage'⟩ : ∃ page, (plan '|' blog "posts" narrower).result = .ok page :=
    ⟨_, plan_ok_iff.mpr rfl⟩
  have hnarrows := plan_narrows hand hpage
  refine ⟨hand, page, hpage, ?_, ?_, page', hpage', ?_, fun db ρ ↦ ?_⟩
  · obtain rfl := Except.ok.inj (plan_ok_iff.mp hpage)
    decide +kernel
  · obtain ⟨reversed, hreversed⟩ := hnarrows.permuted _ narrow.filters.reverse_perm
      fun _ _ ↦ ⟨2, rfl⟩
    exact ⟨reversed, hreversed, fun db ρ ↦
      (hnarrows.same _ reversed narrow.filters.reverse_perm hreversed db ρ).1⟩
  · obtain rfl := Except.ok.inj (plan_ok_iff.mp hpage')
    decide +kernel
  · exact (hnarrows.narrowed (narrow.filters.take 2) (narrow.filters.drop 2) _ page'
      (List.take_append_drop 2 _) rfl hpage' db ρ).1

end Listing
