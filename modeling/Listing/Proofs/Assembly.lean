import Listing.Proofs.Scripts
import Mathlib.Data.List.Induction
import Mathlib.Logic.Function.Basic

namespace Listing

theorem eraseDups_of_nodup {α : Type} [DecidableEq α] {l : List α} (h : l.Nodup) :
    l.eraseDups = l := by
  induction l with
  | nil => exact List.eraseDups_nil
  | cons a more ih =>
    obtain ⟨ha, hmore⟩ := List.nodup_cons.mp h
    have hkept : more.filter (fun b ↦ !b == a) = more := by
      apply List.filter_eq_self.mpr
      intro b hb
      have hne : b ≠ a := fun heq ↦ ha (heq ▸ hb)
      rw [beq_false_of_ne hne]
      rfl
    rw [List.eraseDups_cons, hkept, ih hmore]

namespace Groups

variable {α : Type}

theorem add_map (items : String → List α) (chain : String) (item : α) {chains : List String}
    (h : chains.Nodup) :
    Groups.add chain item (chains.map fun name ↦ (name, items name)) =
      if chain ∈ chains then
        chains.map fun name ↦ (name, if name = chain then items name ++ [item] else items name)
      else (chains.map fun name ↦ (name, items name)) ++ [(chain, [item])] := by
  induction chains with
  | nil => rfl
  | cons name more ih =>
    obtain ⟨hname, hmore⟩ := List.nodup_cons.mp h
    rw [List.map_cons, add]
    by_cases heq : name = chain
    · subst heq
      have hothers : (more.map fun other ↦
          (other, if other = name then items other ++ [item] else items other)) =
          more.map fun other ↦ (other, items other) := by
        apply List.map_congr_left
        intro other hother
        have hne : other ≠ name := fun he ↦ hname (he ▸ hother)
        rw [if_neg hne]
      rw [if_pos rfl, if_pos List.mem_cons_self, List.map_cons, if_pos rfl, hothers]
    · have hmem : chain ∈ name :: more ↔ chain ∈ more := by
        rw [List.mem_cons, or_iff_right (Ne.symm heq)]
      rw [if_neg heq, ih hmore, if_congr hmem rfl rfl, List.map_cons, if_neg heq]
      split <;> rfl

theorem add_byChain (chain : String) (item : α) (items : List (String × α)) :
    Groups.add chain item (byChain items) = byChain (items ++ [(chain, item)]) := by
  have hkeys : ((items ++ [(chain, item)]).map (·.1)).eraseDups =
      if chain ∈ (items.map (·.1)).eraseDups then (items.map (·.1)).eraseDups
      else (items.map (·.1)).eraseDups ++ [chain] := by
    rw [List.map_append, List.eraseDups_append]
    by_cases hmem : chain ∈ items.map (·.1)
    · simp [hmem, List.removeAll]
    · simp [hmem, List.removeAll, List.eraseDups_cons]
  have hnew : chain ∉ (items.map (·.1)).eraseDups → items.filter (·.1 == chain) = [] := by
    intro hmem
    rw [List.mem_eraseDups] at hmem
    rw [List.filter_eq_nil_iff]
    intro i hi he
    exact hmem (List.mem_map.mpr ⟨i, hi, beq_iff_eq.mp he⟩)
  rw [byChain, byChain, add_map _ _ _ (nodup_eraseDups _), hkeys]
  split
  · apply List.map_congr_left
    intro name _
    by_cases hname : name = chain
    · simp [hname, List.filter_append]
    · simp [hname, Ne.symm hname, List.filter_append]
  · rename_i hmem
    rw [List.map_append, List.map_singleton, List.filter_append, hnew hmem]
    congr 1
    · apply List.map_congr_left
      intro name hname
      have hne : chain ≠ name := fun he ↦ hmem (he ▸ hname)
      simp [hne, List.filter_append]
    · simp

theorem foldl_add (items : List (String × α)) :
    items.foldl (fun groups i ↦ Groups.add i.1 i.2 groups) [] = byChain items := by
  induction items using List.reverseRecOn with
  | nil => rfl
  | append_singleton items i ih => rw [List.foldl_append, ih, List.foldl_cons, List.foldl_nil,
      add_byChain]

end Groups

theorem Partition.foldl_add (items : List (String × Filter)) (p : Partition) :
    items.foldl (fun p i ↦ p.add i.1 i.2) p =
      ⟨(items.filter (·.2.connective = .and)).foldl (fun groups i ↦ Groups.add i.1 i.2 groups)
          p.conjoined,
        (items.filter (·.2.connective = .or)).foldl (fun groups i ↦ Groups.add i.1 i.2 groups)
          p.disjoined⟩ := by
  induction items generalizing p with
  | nil => rfl
  | cons i more ih =>
    rw [List.foldl_cons, ih, add]
    cases hc : i.2.connective with
    | and => simp [hc]
    | or => simp [hc]

namespace Include

variable {σ : Type}

theorem put_map {item : String → Include σ} (hitem : ∀ chain, (item chain).chain = chain)
    (i : Include σ) {chains : List String} (h : chains.Nodup) :
    put i (chains.map item) =
      if i.chain ∈ chains then chains.map (Function.update item i.chain i)
      else chains.map item ++ [i] := by
  induction chains with
  | nil => rfl
  | cons chain more ih =>
    obtain ⟨hchain, hmore⟩ := List.nodup_cons.mp h
    rw [List.map_cons, put, hitem]
    by_cases heq : chain = i.chain
    · subst heq
      have hothers : more.map (Function.update item i.chain i) = more.map item := by
        apply List.map_congr_left
        intro other hother
        have hne : other ≠ i.chain := fun heq ↦ hchain (heq ▸ hother)
        exact Function.update_of_ne hne i item
      rw [if_pos rfl, if_pos List.mem_cons_self, List.map_cons, Function.update_self, hothers]
    · rw [if_neg heq, ih hmore]
      by_cases hmem : i.chain ∈ more
      · rw [if_pos hmem, if_pos (List.mem_cons_of_mem chain hmem), List.map_cons,
          Function.update_of_ne heq]
      · have hnot : i.chain ∉ chain :: more := by
          rw [List.mem_cons, not_or]
          exact ⟨Ne.symm heq, hmem⟩
        rw [if_neg hmem, if_neg hnot, List.cons_append]

theorem update_ite_mem (item : String → Include σ) (ordered : List String) (chain : String) :
    Function.update (fun other ↦ if other ∈ ordered then item other else .plain other) chain
        (item chain) =
      fun other ↦ if other ∈ ordered ++ [chain] then item other else .plain other := by
  funext other
  by_cases heq : other = chain
  · subst heq
    simp
  · simp [heq]

theorem foldl_put {item : String → Include σ} (hitem : ∀ chain, (item chain).chain = chain)
    {included ordered : List String} (hincluded : included.Nodup) (hordered : ordered.Nodup) :
    ordered.foldl (fun includes chain ↦ put (item chain) includes) (included.map .plain) =
      (included ++ ordered.filter (· ∉ included)).map fun chain ↦
        if chain ∈ ordered then item chain else .plain chain := by
  induction ordered using List.reverseRecOn with
  | nil => simp
  | append_singleton ordered chain ih =>
    obtain ⟨hbefore, -, hfresh⟩ := List.nodup_append.mp hordered
    have hchain : chain ∉ ordered := fun hmem ↦
      hfresh chain hmem chain (List.mem_singleton_self chain) rfl
    have hnodup : (included ++ ordered.filter (· ∉ included)).Nodup := by
      apply hincluded.append (hbefore.filter _)
      intro other hin hout
      exact absurd hin (of_decide_eq_true (List.mem_filter.mp hout).2)
    have hself (other : String) :
        (if other ∈ ordered then item other else .plain other).chain = other := by
      split
      · exact hitem other
      · rfl
    rw [List.foldl_append, ih hbefore, List.foldl_cons, List.foldl_nil, put_map hself _ hnodup,
      hitem, List.filter_append]
    by_cases hin : chain ∈ included
    · rw [if_pos (List.mem_append_left _ hin), List.filter_cons_of_neg (by simpa using hin),
        List.filter_nil, List.append_nil, update_ite_mem]
    · have hout : chain ∉ included ++ ordered.filter (· ∉ included) := by
        simp [hin, hchain]
      rw [if_neg hout, List.filter_cons_of_pos (by simpa using hin), List.filter_nil,
        ← List.append_assoc]
      conv_rhs => rw [List.map_append, List.map_singleton,
        if_pos (List.mem_append_right ordered (List.mem_singleton_self chain))]
      congr 1
      apply List.map_congr_left
      intro other hother
      have hne : other ≠ chain := fun heq ↦ hout (heq ▸ hother)
      simp [hne]

end Include

theorem Request.nodup_keys_relatedOrders (r : Request) : (r.relatedOrders.map (·.1)).Nodup := by
  rw [relatedOrders, byChain, List.map_map]
  exact (List.map_id _).symm ▸ nodup_eraseDups _

theorem Request.loadedChains_append (r : Request) : r.loadedChains =
    r.includedChains.eraseDups ++
      (r.relatedOrders.map (·.1)).filter (· ∉ r.includedChains.eraseDups) := by
  have hordered : (r.relatedOrders.map (·.1)).removeAll r.includedChains =
      (r.relatedOrders.map (·.1)).filter (· ∉ r.includedChains.eraseDups) := by
    apply List.filter_congr
    intro chain _
    simp
  rw [loadedChains, List.eraseDups_append, hordered, 
    eraseDups_of_nodup (r.nodup_keys_relatedOrders.filter _)]

theorem Request.relatedOrders_eq_nil {r : Request} (h : r.loadedChains = []) :
    r.relatedOrders = [] := by
  refine List.eq_nil_iff_forall_not_mem.mpr fun item hitem ↦ ?_
  have hkey : item.1 ∈ r.relatedOrders.map (·.1) := List.mem_map.mpr ⟨item, hitem, rfl⟩
  have hmem : item.1 ∈ r.loadedChains :=
    List.mem_eraseDups.mpr (List.mem_append_right r.includedChains hkey)
  rw [h] at hmem
  exact absurd hmem List.not_mem_nil

theorem lookup_of_mem {β : Type} {l : List (String × β)} (h : (l.map (·.1)).Nodup)
    {n : String × β} (hn : n ∈ l) : l.lookup n.1 = some n.2 := by
  induction l with
  | nil => exact absurd hn List.not_mem_nil
  | cons first more ih =>
    rw [List.map_cons, List.nodup_cons] at h
    rw [List.lookup_cons]
    rcases List.mem_cons.mp hn with rfl | hmore
    · rw [beq_self_eq_true]
    · have hne : n.1 ≠ first.1 := fun he ↦ h.1 (he ▸ List.mem_map_of_mem hmore)
      rw [beq_false_of_ne hne]
      exact ih h.2 hmore

theorem Script.keys_withTables {α : Type} {tableAt : String → Except Failure String}
    {items : List (String × α)} {named : List (String × String × α)}
    (h : withTables tableAt items = .ok named) : named.map (·.1) = items.map (·.1) := by
  induction items generalizing named with
  | nil =>
    obtain rfl := Except.ok.inj h
    rfl
  | cons item more ih =>
    rw [withTables_cons] at h
    cases htable : tableAt item.1 with
    | error f => simp [htable, Except.bind] at h
    | ok table =>
      cases hmore : withTables tableAt more with
      | error f => simp [htable, hmore, Except.map, Except.bind] at h
      | ok later =>
        rw [htable, hmore] at h
        obtain rfl := Except.ok.inj h
        rw [List.map_cons, List.map_cons, ih hmore]

namespace Builder

variable {σ : Type} (B : Builder σ)

mutual

def step : Step → EStateM Failure σ Unit
  | .restrict p => B.restrict p
  | .group c scope => B.group c ((actions scope).forM id)
  | .existing chain c scope => B.existing chain c ((actions scope).forM id)
  | .order o => B.order o
  | .load includes => B.load (inclusions includes)
  | .limit n => B.limit n
  | .offset n => B.offset n
  | .tableAt chain => do
    let _ ← B.tableAt chain
  | .countRows => do
    let _ ← B.countRows
  | .fail f => throw f

def actions : List Step → List (EStateM Failure σ Unit)
  | [] => []
  | first :: more => step first :: actions more

def inclusion : Include Step → Include (EStateM Failure σ Unit)
  | .plain chain => .plain chain
  | .scoped chain scope => .scoped chain (actions scope)

def inclusions : List (Include Step) → List (Include (EStateM Failure σ Unit))
  | [] => []
  | i :: more => inclusion i :: inclusions more

end

def steps (l : List Step) : EStateM Failure σ Unit := (B.actions l).forM id

theorem actions_eq (l : List Step) : B.actions l = l.map B.step := by
  induction l with
  | nil => rfl
  | cons first more ih => rw [actions, ih, List.map_cons]

theorem inclusions_eq (includes : List (Include Step)) :
    B.inclusions includes = includes.map B.inclusion := by
  induction includes with
  | nil => rfl
  | cons i more ih => rw [inclusions, ih, List.map_cons]

theorem steps_cons (first : Step) (more : List Step) :
    B.steps (first :: more) = B.step first >>= fun _ ↦ B.steps more := rfl

theorem steps_append (l more : List Step) :
    B.steps (l ++ more) = B.steps l >>= fun _ ↦ B.steps more := by
  induction l with
  | nil => rfl
  | cons first l ih =>
    rw [List.cons_append, steps_cons, ih, steps_cons, bind_assoc]

theorem steps_map {α : Type} (f : α → Step) (l : List α) :
    B.steps (l.map f) = l.forM fun a ↦ B.step (f a) := by
  induction l with
  | nil => rfl
  | cons a more ih => rw [List.map_cons, steps_cons, ih]; rfl

theorem steps_singleton (first : Step) : B.steps [first] = B.step first := by
  rw [steps_cons]
  exact bind_pure_unit

section Partitions

variable (separator : Char)

theorem apply_eq (f : Filter) : B.apply separator f = B.step (Script.filterStep separator f) := by
  unfold apply Script.filterStep
  cases f.predicate separator <;> rfl

theorem distribute_eq {α β : Type} {place : α → Place α} {onListing : α → EStateM Failure σ Unit}
    {step : α → Step} (h : ∀ item, onListing item = B.step (step item))
    (collect : β → String → α → β) (items : List α) (start : β) :
    distribute place onListing collect items start =
      (B.steps ((items.filterMap fun item ↦ (place item).root?).map step) >>= fun _ ↦
        pure ((items.filterMap fun item ↦ (place item).related?).foldl
          (fun collected i ↦ collect collected i.1 i.2) start)) := by
  unfold distribute
  induction items generalizing start with
  | nil => rfl
  | cons item more ih =>
    rw [List.foldlM_cons]
    cases hplace : place item with
    | root item' =>
      simp only [List.filterMap_cons, hplace, Place.root?_root, Place.related?_root, List.map_cons,
        steps_cons, bind_assoc, pure_bind, ih, h item']
    | related chain item' =>
      simp only [List.filterMap_cons, hplace, Place.root?_related, Place.related?_related,
        List.foldl_cons, pure_bind, ih]

theorem partitionFilters_eq (r : Request) : B.partitionFilters separator r.filters =
    (B.steps (r.rootFilters.map (Script.filterStep separator)) >>= fun _ ↦
      pure ⟨r.conjoined, r.relatedFilters .or⟩) := by
  rw [partitionFilters, B.distribute_eq (B.apply_eq separator), Partition.foldl_add,
    Groups.foldl_add, Groups.foldl_add]
  rfl

theorem partitionOrders_eq (r : Request) : B.partitionOrders r.orders =
    (B.steps (r.rootOrders.map .order) >>= fun _ ↦ pure r.relatedOrders) := by
  have horder (o : Order) : B.order o = B.step (.order o) := rfl
  rw [partitionOrders, B.distribute_eq horder, Groups.foldl_add]
  rfl

end Partitions

section Scopes

variable (separator : Char)

theorem applyExisting_eq (c : Connective) (chain table : String) (filters : List Filter) :
    B.applyExisting separator c chain table filters =
      B.step (Script.existingStep separator c chain table filters) := by
  have hscope : (filters.forM fun f ↦
      B.group .and (B.apply separator { f with field := Path.qualify table f.field })) =
      B.steps (filters.map fun f ↦
        .group .and
          [Script.filterStep separator { f with field := Path.qualify table f.field }]) := by
    rw [steps_map]
    refine congrArg filters.forM (funext fun f ↦ ?_)
    rw [apply_eq, ← steps_singleton]
    rfl
  rw [applyExisting, hscope]
  rfl

theorem includeOrdered_eq (chain table : String) (orders : List Order) :
    B.includeOrdered chain table orders = B.inclusion (.scoped chain (orders.map fun o ↦
      .order { o with field := Path.qualify table o.field })) := by
  rw [includeOrdered, inclusion, actions_eq, List.map_map]
  rfl

theorem group_eq (c : Connective) (named : List (String × String × List Filter)) :
    (B.group c <| named.forM fun n ↦ B.applyExisting separator c n.1 n.2.1 n.2.2) =
      B.step (.group c <| named.map fun n ↦
        Script.existingStep separator c n.1 n.2.1 n.2.2) := by
  simp only [applyExisting_eq, ← steps_map]
  rfl

theorem chain_includeOf (named : List (String × String × List Order)) (chain : String) :
    (B.inclusion (Script.includeOf named chain)).chain = chain := by
  unfold Script.includeOf
  cases named.lookup chain <;> rfl

theorem foldl_includeOrdered {tableAt : String → Except Failure String} {r : Request}
    {named : List (String × String × List Order)}
    (h : Script.withTables tableAt r.relatedOrders = .ok named) :
    named.foldl (fun includes n ↦ Include.put (B.includeOrdered n.1 n.2.1 n.2.2) includes)
        (r.includedChains.eraseDups.map .plain) =
      B.inclusions (r.loadedChains.map (Script.includeOf named)) := by
  have hkeys : named.map (·.1) = r.relatedOrders.map (·.1) := Script.keys_withTables h
  have hnodup : (named.map (·.1)).Nodup := hkeys ▸ r.nodup_keys_relatedOrders
  have hitem (n : String × String × List Order) (hn : n ∈ named) :
      B.includeOrdered n.1 n.2.1 n.2.2 = B.inclusion (Script.includeOf named n.1) := by
    rw [includeOrdered_eq, Script.includeOf, lookup_of_mem hnodup hn]
  have hfold : named.foldl
      (fun includes n ↦ Include.put (B.includeOrdered n.1 n.2.1 n.2.2) includes)
      (r.includedChains.eraseDups.map .plain) =
      (named.map (·.1)).foldl
        (fun includes chain ↦ Include.put (B.inclusion (Script.includeOf named chain)) includes)
        (r.includedChains.eraseDups.map .plain) := by
    rw [List.foldl_map]
    refine List.foldl_ext _ _ _ fun includes n hn ↦ ?_
    rw [hitem n hn]
  rw [hfold, Include.foldl_put (B.chain_includeOf named) (nodup_eraseDups _) hnodup, hkeys,
    ← r.loadedChains_append, inclusions_eq, List.map_map]
  refine List.map_congr_left fun chain _ ↦ ?_
  by_cases hchain : chain ∈ r.relatedOrders.map (·.1)
  · rw [if_pos hchain, Function.comp_apply]
  · have hnone : named.lookup chain = none := by
      rw [List.lookup_eq_none_iff]
      intro n hn
      rw [bne_iff_ne]
      exact fun he ↦ hchain (hkeys ▸ List.mem_map.mpr ⟨n, hn, he.symm⟩)
    rw [if_neg hchain, Function.comp_apply, Script.includeOf, hnone]
    rfl

def lastWindow : Option Window → EStateM Failure σ Window
  | some w => pure w
  | none => do
    return ⟨1, ← B.countRows⟩

theorem turnTo_eq (page? : Option Window) :
    B.turnTo page? = B.steps (Script.pageSteps page?) >>= fun _ ↦ B.lastWindow page? := by
  cases page? with
  | none => rfl
  | some w =>
    rw [Script.pageSteps, steps_cons, steps_singleton, bind_assoc]
    rfl

theorem arrange_eq (r : Request) : B.arrange separator r = (do
    B.steps (r.rootFilters.map (Script.filterStep separator))
    B.steps (r.rootOrders.map .order)
    B.applyRelated separator .and r.conjoined
    B.applyRelated separator .or r.disjoined
    B.applyIncludes r.includedChains.eraseDups r.relatedOrders) := by
  rw [arrange, B.partitionFilters_eq, B.partitionOrders_eq]
  simp only [bind_assoc, pure_bind]
  rfl

end Scopes

section Lookups

def AgreeOn {α : Type} (I : σ → Prop) (m m' : EStateM Failure σ α) : Prop :=
  ∀ s, I s → m s = m' s

def Keeps {α : Type} (I : σ → Prop) (m : EStateM Failure σ α) : Prop :=
  ∀ s, I s → ∀ a t, m s = .ok a t → I t

/-- On states with the property, which steps keep, the tables that chains lead to are the same. -/
structure Steady (I : σ → Prop) (tableAt : String → Except Failure String) : Prop where
  tableAt : ∀ chain, AgreeOn I (B.tableAt chain) (MonadExcept.ofExcept (tableAt chain))
  step : ∀ step, Keeps I (B.step step)

variable {α β : Type} {I : σ → Prop}

theorem bind_ok {m : EStateM Failure σ α} {s t : σ} {a : α} (h : m s = .ok a t)
    (f : α → EStateM Failure σ β) : (m >>= f) s = f a t := by
  change EStateM.bind m f s = _
  rw [EStateM.bind, h]

theorem bind_error {m : EStateM Failure σ α} {s t : σ} {e : Failure} (h : m s = .error e t)
    (f : α → EStateM Failure σ β) : (m >>= f) s = .error e t := by
  change EStateM.bind m f s = _
  rw [EStateM.bind, h]

theorem bind_eq_ok {m : EStateM Failure σ α} {f : α → EStateM Failure σ β} {s u : σ} {b : β}
    (h : (m >>= f) s = .ok b u) : ∃ a t, m s = .ok a t ∧ f a t = .ok b u := by
  cases hm : m s with
  | ok a t => exact ⟨a, t, rfl, (bind_ok hm f).symm.trans h⟩
  | error e t =>
    rw [bind_error hm] at h
    cases h

theorem AgreeOn.bind {m m' : EStateM Failure σ α} {f f' : α → EStateM Failure σ β}
    (h : AgreeOn I m m') (hk : Keeps I m') (hf : ∀ a, AgreeOn I (f a) (f' a)) :
    AgreeOn I (m >>= f) (m' >>= f') := by
  intro s hs
  cases hm : m' s with
  | ok a t =>
    rw [bind_ok ((h s hs).trans hm), bind_ok hm]
    exact hf a t (hk s hs a t hm)
  | error e t => rw [bind_error ((h s hs).trans hm), bind_error hm]

theorem AgreeOn.bind_left {m m' : EStateM Failure σ α} (h : AgreeOn I m m')
    (f : α → EStateM Failure σ β) : AgreeOn I (m >>= f) (m' >>= f) := by
  intro s hs
  change EStateM.bind m f s = EStateM.bind m' f s
  rw [EStateM.bind, EStateM.bind, h s hs]

theorem AgreeOn.refl (m : EStateM Failure σ α) : AgreeOn I m m := fun _ _ ↦ rfl

theorem AgreeOn.trans {m m' m'' : EStateM Failure σ α} (h : AgreeOn I m m')
    (h' : AgreeOn I m' m'') : AgreeOn I m m'' := fun s hs ↦ (h s hs).trans (h' s hs)

theorem Keeps.bind {m : EStateM Failure σ α} {f : α → EStateM Failure σ β} (h : Keeps I m)
    (hf : ∀ a, Keeps I (f a)) : Keeps I (m >>= f) := by
  intro s hs b t hb
  obtain ⟨a, u, hm, hb⟩ := bind_eq_ok hb
  exact hf a u (h s hs a u hm) b t hb

theorem Keeps.pure (a : α) : Keeps I (pure a : EStateM Failure σ α) := by
  intro s hs b t hb
  obtain ⟨rfl, rfl⟩ := EStateM.Result.ok.inj hb
  exact hs

theorem Keeps.throw (f : Failure) : Keeps I (throw f : EStateM Failure σ α) :=
  fun _ _ _ _ h ↦ nomatch h

theorem Keeps.ofExcept (e : Except Failure α) :
    Keeps I (MonadExcept.ofExcept e : EStateM Failure σ α) := by
  cases e with
  | ok a => exact Keeps.pure a
  | error f => exact Keeps.throw f

theorem ofExcept_bind (e : Except Failure α) (f : α → Except Failure β) :
    (MonadExcept.ofExcept (e.bind f) : EStateM Failure σ β) =
      MonadExcept.ofExcept e >>= fun a ↦ MonadExcept.ofExcept (f a) := by
  cases e <;> rfl

theorem ofExcept_map (e : Except Failure α) (f : α → β) :
    (MonadExcept.ofExcept (e.map f) : EStateM Failure σ β) =
      MonadExcept.ofExcept e >>= fun a ↦ Pure.pure (f a) := by
  cases e <;> rfl

end Lookups

namespace Steady

variable {B} {I : σ → Prop} {tableAt : String → Except Failure String}

theorem lookUp (h : B.Steady I tableAt) {α : Type} (groups : Groups α) :
    AgreeOn I (B.lookUp groups) (MonadExcept.ofExcept (Script.withTables tableAt groups)) := by
  unfold Builder.lookUp
  induction groups with
  | nil => exact AgreeOn.refl _
  | cons group more ih =>
    obtain ⟨chain, items⟩ := group
    rw [List.mapM_cons, Script.withTables_cons, ofExcept_bind]
    simp only [bind_assoc, pure_bind, ofExcept_map]
    refine (h.tableAt _).bind (Keeps.ofExcept _) fun table ↦ ?_
    exact ih.bind (Keeps.ofExcept _) fun _ ↦ AgreeOn.refl _

theorem mergeOrders (h : B.Steady I tableAt) (groups : Groups Order)
    (includes : List (Include (EStateM Failure σ Unit))) :
    AgreeOn I (B.mergeOrders groups includes)
      (MonadExcept.ofExcept (Script.withTables tableAt groups) >>= fun named ↦
        Pure.pure (named.foldl (fun includes n ↦
          Include.put (B.includeOrdered n.1 n.2.1 n.2.2) includes) includes)) := by
  unfold Builder.mergeOrders
  induction groups generalizing includes with
  | nil => exact AgreeOn.refl _
  | cons group more ih =>
    obtain ⟨chain, orders⟩ := group
    rw [List.foldlM_cons, Script.withTables_cons, ofExcept_bind]
    simp only [bind_assoc, pure_bind, ofExcept_map, List.foldl_cons]
    exact (h.tableAt _).bind (Keeps.ofExcept _) fun table ↦ ih _

theorem applyRelated (h : B.Steady I tableAt) (separator : Char) (c : Connective)
    (groups : Groups Filter) :
    AgreeOn I (B.applyRelated separator c groups)
      (B.steps (Script.relatedSteps separator tableAt c groups)) := by
  unfold Builder.applyRelated
  cases hempty : groups.isEmpty with
  | true =>
    rw [Script.relatedSteps, if_pos hempty]
    exact AgreeOn.refl _
  | false =>
    rw [Script.relatedSteps, if_neg (Bool.eq_false_iff.mp hempty)]
    refine AgreeOn.trans ((h.lookUp groups).bind (Keeps.ofExcept _) fun _ ↦ AgreeOn.refl _) ?_
    cases Script.withTables tableAt groups with
    | error f => exact fun _ _ ↦ rfl
    | ok named =>
      rw [steps_singleton]
      exact fun s _ ↦ congrFun (B.group_eq separator c named) s

theorem applyIncludes (h : B.Steady I tableAt) (r : Request) :
    AgreeOn I (B.applyIncludes r.includedChains.eraseDups r.relatedOrders)
      (B.steps (Script.includeSteps tableAt r)) := by
  unfold Builder.applyIncludes
  refine AgreeOn.trans ((h.mergeOrders _ _).bind ?_ fun _ ↦ AgreeOn.refl _) ?_
  · exact (Keeps.ofExcept _).bind fun _ ↦ Keeps.pure _
  · unfold Script.includeSteps
    by_cases hempty : r.loadedChains = []
    · have hincluded : r.includedChains.eraseDups = [] :=
        (List.append_eq_nil_iff.mp (r.loadedChains_append.symm.trans hempty)).1
      rw [if_pos (List.isEmpty_iff.mpr hempty), Request.relatedOrders_eq_nil hempty, hincluded]
      exact AgreeOn.refl _
    · rw [if_neg (mt List.isEmpty_iff.mp hempty)]
      cases hnamed : Script.withTables tableAt r.relatedOrders with
      | error f => exact fun _ _ ↦ rfl
      | ok named =>
        have hload : B.inclusions (r.loadedChains.map (Script.includeOf named)) ≠ [] := by
          simpa [inclusions_eq] using hempty
        change AgreeOn I (do unless List.isEmpty _ do B.load _) _
        rw [B.foldl_includeOrdered hnamed, steps_singleton]
        simp only [List.isEmpty_eq_false_iff.mpr hload]
        exact AgreeOn.refl _

theorem steps (h : B.Steady I tableAt) (l : List Step) : Keeps I (B.steps l) := by
  induction l with
  | nil => exact Keeps.pure ()
  | cons first more ih => exact (h.step first).bind fun _ ↦ ih

theorem arrange (h : B.Steady I tableAt) (separator : Char) (r : Request) :
    AgreeOn I (B.arrange separator r)
      (B.steps (r.rootFilters.map (Script.filterStep separator) ++ r.rootOrders.map .order ++
        Script.relatedSteps separator tableAt .and r.conjoined ++
        Script.relatedSteps separator tableAt .or r.disjoined ++
        Script.includeSteps tableAt r)) := by
  rw [arrange_eq]
  simp only [steps_append, bind_assoc]
  refine (AgreeOn.refl _).bind (h.steps _) fun _ ↦ (AgreeOn.refl _).bind (h.steps _) fun _ ↦ ?_
  refine (h.applyRelated _ _ _).bind (h.steps _) fun _ ↦ ?_
  exact (h.applyRelated _ _ _).bind (h.steps _) fun _ ↦ h.applyIncludes r

/-- To put a request into a query is to go through the script of the request. -/
theorem assemble (h : B.Steady I tableAt) (separator : Char) (r : Request) :
    AgreeOn I (B.assemble separator r)
      (B.steps (Script.ofRequest separator tableAt r).steps >>= fun _ ↦
        B.lastWindow r.page?) := by
  rw [Script.ofRequest, steps_append, bind_assoc, ← turnTo_eq]
  exact (h.arrange separator r).bind_left _

end Steady

end Builder

end Listing
