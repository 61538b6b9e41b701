import Listing.Proofs.Independence
import Listing.Proofs.Routing

namespace Listing

namespace Step

mutual

/-- The step and then all steps of its scopes, however deep. -/
def subtree : Step → List Step
  | .group c scope => .group c scope :: subtrees scope
  | .existing chain c scope => .existing chain c scope :: subtrees scope
  | .load includes => .load includes :: includesSubtrees includes
  | step => [step]

def subtrees : List Step → List Step
  | [] => []
  | step :: more => subtree step ++ subtrees more

def includeSubtrees : Include Step → List Step
  | .plain _ => []
  | .scoped _ scope => subtrees scope

def includesSubtrees : List (Include Step) → List Step
  | [] => []
  | first :: more => includeSubtrees first ++ includesSubtrees more

end

theorem subtrees_eq (steps : List Step) : subtrees steps = steps.flatMap subtree := by
  induction steps with
  | nil => rfl
  | cons step more ih => rw [subtrees, ih, List.flatMap_cons]

theorem includesSubtrees_eq (includes : List (Include Step)) :
    includesSubtrees includes = includes.flatMap includeSubtrees := by
  induction includes with
  | nil => rfl
  | cons i more ih => rw [includesSubtrees, ih, List.flatMap_cons]

/-- The calls to load, wherever they stand. -/
def loadings (steps : List Step) : List (List (Include Step)) := (subtrees steps).filterMap load?

theorem loadings_append (steps more : List Step) :
    loadings (steps ++ more) = loadings steps ++ loadings more := by
  rw [loadings, subtrees_eq, List.flatMap_append, List.filterMap_append, ← subtrees_eq,
    ← subtrees_eq, loadings, loadings]

theorem loadings_group (c : Connective) (scope : List Step) :
    loadings [.group c scope] = loadings scope := by
  rw [loadings, subtrees, subtrees, subtree, List.append_nil, List.filterMap_cons_none rfl,
    loadings]

theorem loadings_existing (chain : String) (c : Connective) (scope : List Step) :
    loadings [.existing chain c scope] = loadings scope := by
  rw [loadings, subtrees, subtrees, subtree, List.append_nil, List.filterMap_cons_none rfl,
    loadings]

theorem loadings_load (includes : List (Include Step)) :
    loadings [.load includes] = includes :: (includesSubtrees includes).filterMap load? := by
  rw [loadings, subtrees, subtrees, subtree, List.append_nil,
    List.filterMap_cons_some (f := load?) (b := includes) rfl]

theorem loadings_eq_nil {steps : List Step} (h : ∀ step ∈ steps, loadings [step] = []) :
    loadings steps = [] := by
  induction steps with
  | nil => rfl
  | cons step more ih =>
    obtain ⟨hstep, hmore⟩ := List.forall_mem_cons.mp h
    rw [← List.singleton_append, loadings_append, hstep, ih hmore, List.nil_append]

end Step

namespace Script

variable (separator : Char) (tables : String → String) (r : Request)

theorem loadings_filterStep (f : Filter) : Step.loadings [filterStep separator f] = [] := by
  unfold filterStep
  cases f.predicate separator <;> rfl

theorem loadings_existingStep (c : Connective) (chain table : String) (filters : List Filter) :
    Step.loadings [existingStep separator c chain table filters] = [] := by
  rw [existingStep, Step.loadings_existing]
  refine Step.loadings_eq_nil (List.forall_mem_map.mpr fun f _ ↦ ?_)
  rw [Step.loadings_group, loadings_filterStep]

theorem loadings_relatedSteps (c : Connective) (filters : List (String × List Filter)) :
    Step.loadings (relatedSteps separator (.ok ∘ tables) c filters) = [] := by
  rw [relatedSteps, withTables_ok]
  split
  · rfl
  · rw [Step.loadings_group]
    refine Step.loadings_eq_nil (List.forall_mem_map.mpr fun group _ ↦ ?_)
    exact loadings_existingStep separator c _ _ _

theorem loadings_includeSteps : Step.loadings (includeSteps (.ok ∘ tables) r) =
    if r.loadedChains = [] then [] else [r.loadedChains.map (r.inclusion tables)] := by
  have hscope (chain : String) :
      (Step.includeSubtrees (r.inclusion tables chain)).filterMap Step.load? = [] := by
    unfold Request.inclusion
    split
    · rfl
    · exact Step.loadings_eq_nil (List.forall_mem_map.mpr fun _ _ ↦ rfl)
  have hscopes : (Step.includesSubtrees (r.loadedChains.map (r.inclusion tables))).filterMap
      Step.load? = [] := by
    rw [Step.includesSubtrees_eq, List.filterMap_flatMap, List.flatMap_eq_nil_iff]
    exact List.forall_mem_map.mpr fun chain _ ↦ hscope chain
  rw [includeSteps_eq]
  split
  · rfl
  · rw [Step.loadings_load, hscopes]

theorem loadings_ofRequest : Step.loadings (ofRequest separator (.ok ∘ tables) r).steps =
    if r.loadedChains = [] then [] else [r.loadedChains.map (r.inclusion tables)] := by
  have hroots : Step.loadings (r.rootFilters.map (filterStep separator)) = [] :=
    Step.loadings_eq_nil (List.forall_mem_map.mpr fun f _ ↦ loadings_filterStep separator f)
  have horders : Step.loadings (r.rootOrders.map Step.order) = [] :=
    Step.loadings_eq_nil (List.forall_mem_map.mpr fun _ _ ↦ rfl)
  have hpage : Step.loadings (pageSteps r.page?) = [] := by
    cases r.page? <;> rfl
  simp only [ofRequest, Step.loadings_append, hroots, horders, hpage, loadings_relatedSteps,
    loadings_includeSteps, List.nil_append, List.append_nil]

end Script

namespace Request

variable (r : Request)

def requestedChains : List String :=
  ((r.includes.filter (· ≠ "")).map Path.wholeChain).eraseDups

def orderedChains : List String :=
  ((r.orders.filter ('.' ∈ ·.field.toList)).map Order.chain).eraseDups

theorem includedChains_eq :
    r.includedChains = (r.includes.filter (· ≠ "")).map Path.wholeChain := by
  have h (path : String) : (Path.ofRelation path).chain? =
      if path ≠ "" then some (Path.wholeChain path) else none := by
    rw [Path.chain?_ofRelation, ite_not]
  simp only [includedChains, h]
  exact filterMap_ite _ r.includes

theorem keys_relatedOrders : r.relatedOrders.map (·.1) = r.orderedChains := by
  simp only [relatedOrders, byChain, Order.related?_place]
  rw [filterMap_ite, List.map_map, List.map_map, orderedChains]
  exact List.map_id _

theorem loadedChains_eq : r.loadedChains =
    r.requestedChains ++ r.orderedChains.filter (· ∉ r.requestedChains) := by
  have hordered : r.orderedChains.removeAll r.includedChains =
      r.orderedChains.filter (· ∉ r.requestedChains) := by
    apply List.filter_congr
    intro chain _
    rw [requestedChains, ← includedChains_eq]
    simp
  have hnodup : (r.orderedChains.filter (· ∉ r.requestedChains)).Nodup :=
    (nodup_eraseDups _).filter _
  rw [loadedChains, List.eraseDups_append, keys_relatedOrders, hordered, eraseDups_of_nodup hnodup,
    includedChains_eq, requestedChains]

theorem loadedChains_ne_nil : r.loadedChains ≠ [] ↔
    (∃ path ∈ r.includes, path ≠ "") ∨ ∃ o ∈ r.orders, '.' ∈ o.field.toList := by
  rw [ne_eq, List.eq_nil_iff_forall_not_mem, not_forall_not]
  simp only [mem_loadedChains, mem_includedChains, mem_relatedOrders]
  constructor
  · rintro ⟨chain, ⟨path, hpath, hne, -⟩ | ⟨o, ho, hdot, -⟩⟩
    · exact .inl ⟨path, hpath, hne⟩
    · exact .inr ⟨o, ho, hdot⟩
  · rintro (⟨path, hpath, hne⟩ | ⟨o, ho, hdot⟩)
    · exact ⟨_, .inl ⟨path, hpath, hne, rfl⟩⟩
    · exact ⟨_, .inr ⟨o, ho, hdot, rfl⟩⟩

variable (tables : String → String)

theorem chain_inclusion (chain : String) : (r.inclusion tables chain).chain = chain := by
  unfold inclusion
  split <;> rfl

theorem map_chain_inclusion (chains : List String) :
    (chains.map (r.inclusion tables)).map Include.chain = chains := by
  rw [List.map_map]
  exact List.map_id'' (r.chain_inclusion tables) chains

theorem exists_scope_inclusion {chain : String} :
    (∃ scope, r.inclusion tables chain = .scoped chain scope) ↔
      ∃ o ∈ r.orders, '.' ∈ o.field.toList ∧ o.chain = chain := by
  rw [← mem_relatedOrders, ← not_iff_not, ← ordersAlong_eq_nil, inclusion]
  split
  · rename_i hnone
    simp [hnone]
  · rename_i hsome
    simp [hsome]

theorem inclusion_eq_scoped {chain chain' : String} {scope : List Step}
    (h : r.inclusion tables chain = .scoped chain' scope) :
    chain = chain' ∧ scope = (r.ordersAlong chain').map fun o ↦
      .order ⟨Path.qualify (tables chain') o.leaf, o.direction⟩ := by
  unfold inclusion at h
  split at h
  · cases h
  · obtain ⟨rfl, rfl⟩ := Include.scoped.inj h
    exact ⟨rfl, rfl⟩

end Request

namespace Request

variable (r : Request) (tables : String → String)

/-- The chains that are included, in which the orders of each chain are put in turn. -/
def merged : List (Include Step) :=
  r.relatedOrders.foldl (fun includes group ↦ Include.put (.scoped group.1 (group.2.map fun o ↦
    .order { o with field := Path.qualify (tables group.1) o.field })) includes)
    (r.requestedChains.map .plain)

theorem merged_eq : r.merged tables = r.loadedChains.map (r.inclusion tables) := by
  have hgroups : r.merged tables = r.orderedChains.foldl (fun includes chain ↦
      Include.put (.scoped chain ((r.ordersAlong chain).map fun o ↦
        .order { o with field := Path.qualify (tables chain) o.leaf })) includes)
      (r.requestedChains.map .plain) := by
    rw [merged, r.relatedOrders_eq, List.foldl_map, keys_relatedOrders]
    simp only [List.map_map]
    rfl
  have hincluded : r.requestedChains.Nodup := nodup_eraseDups _
  have hordered : r.orderedChains.Nodup := nodup_eraseDups _
  rw [hgroups, loadedChains_eq]
  refine (Include.foldl_put (fun _ ↦ rfl) hincluded hordered).trans ?_
  apply List.map_congr_left
  intro chain _
  rw [inclusion, ← keys_relatedOrders]
  by_cases hnone : r.ordersAlong chain = []
  · rw [if_pos hnone, if_neg (r.ordersAlong_eq_nil.mp hnone)]
  · rw [if_neg hnone, if_pos (not_not.mp (mt r.ordersAlong_eq_nil.mpr hnone))]

end Request

/-- Includes and orders of a request are merged in one call to load, which has every chain once,
those that are included in front. A chain has a scope if there are orders along it, and they are
all that stands in it. Only orders of the listing itself stand at the top. -/
structure Recording.Merges (tables : String → String) (r : Request) (recording : Recording) :
    Prop where
  loads_iff : Step.loadings recording.steps ≠ [] ↔
    (∃ path ∈ r.includes, path ≠ "") ∨ ∃ o ∈ r.orders, '.' ∈ o.field.toList
  single : (Step.loadings recording.steps).length ≤ 1
  merged : ∀ includes ∈ Step.loadings recording.steps, includes = r.merged tables
  chains : ∀ includes ∈ Step.loadings recording.steps, includes.map Include.chain =
    r.requestedChains ++ r.orderedChains.filter (· ∉ r.requestedChains)
  once : ∀ includes ∈ Step.loadings recording.steps, (includes.map Include.chain).Nodup
  scoped_iff : ∀ includes ∈ Step.loadings recording.steps, ∀ i ∈ includes,
    (∃ scope, i = .scoped i.chain scope) ↔ ∃ o ∈ r.orders, '.' ∈ o.field.toList ∧ o.chain = i.chain
  scope : ∀ includes ∈ Step.loadings recording.steps, ∀ chain scope,
    .scoped chain scope ∈ includes →
      scope = (r.orders.filter fun o ↦ '.' ∈ o.field.toList ∧ o.chain = chain).map fun o ↦
        .order ⟨Path.qualify (tables chain) o.leaf, o.direction⟩
  orders : recording.steps.filterMap Step.order? = r.orders.filter ('.' ∉ ·.field.toList)

theorem mem_loadings_record {separator : Char} {names : List (String × String)} {rows : UInt64}
    {r : Request} {recording : Recording} (h : record separator names rows r = .ok recording)
    {includes : List (Include Step)} (hload : includes ∈ Step.loadings recording.steps) :
    includes = r.loadedChains.map (r.inclusion (tableNames names)) := by
  rw [record_steps h, Script.loadings_ofRequest] at hload
  split at hload
  · exact absurd hload List.not_mem_nil
  · exact List.mem_singleton.mp hload

theorem record_merges {separator : Char} {names : List (String × String)} {rows : UInt64}
    {r : Request} {recording : Recording} (h : record separator names rows r = .ok recording) :
    recording.Merges (tableNames names) r where
  loads_iff := by
    rw [record_steps h, Script.loadings_ofRequest, ← r.loadedChains_ne_nil]
    simp
  single := by
    rw [record_steps h, Script.loadings_ofRequest]
    split <;> simp
  merged := by
    intro includes hload
    rw [mem_loadings_record h hload, r.merged_eq]
  chains := by
    intro includes hload
    rw [mem_loadings_record h hload, r.map_chain_inclusion, r.loadedChains_eq]
  once := by
    intro includes hload
    rw [mem_loadings_record h hload, r.map_chain_inclusion]
    exact nodup_eraseDups _
  scoped_iff := by
    intro includes hload i hi
    rw [mem_loadings_record h hload] at hi
    obtain ⟨chain, -, rfl⟩ := List.mem_map.mp hi
    rw [r.chain_inclusion, r.exists_scope_inclusion]
  scope := by
    intro includes hload chain scope hi
    rw [mem_loadings_record h hload] at hi
    obtain ⟨chain', -, hscope⟩ := List.mem_map.mp hi
    exact (r.inclusion_eq_scoped (tableNames names) hscope).2
  orders := by rw [record_steps h, Script.order?_ofRequest, r.rootOrders_eq]

def respelt : Request where
  includes := ["blog_tags", "author", "", "Author"]
  orders := [{ field := "author.name", direction := .descending }, { field := "title" },
    { field := "author.company.city" }, { field := "Author.age" }]

theorem record_merges_respelt : ∃ recording,
    record '|' [("author", "users")] 0 respelt = .ok recording ∧
      recording.Merges (tableNames [("author", "users")]) respelt ∧
      (Step.loadings recording.steps).map (·.map Include.chain) =
        [["blogTags", "author", "author.company"]] := by
  obtain ⟨recording, hok⟩ : ∃ recording,
      record '|' [("author", "users")] 0 respelt = .ok recording :=
    record_eq_ok.mpr (by decide +kernel)
  refine ⟨recording, hok, record_merges hok, ?_⟩
  rw [record_steps hok, Script.loadings_ofRequest]
  decide +kernel

end Listing
