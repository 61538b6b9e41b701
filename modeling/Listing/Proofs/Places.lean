import Listing.Request.Place
import Mathlib.Data.List.Nodup

namespace Listing

namespace Text

theorem length_parts (sep : Char) (s : String) :
    (parts sep s).length = s.toList.count sep + 1 := by
  rw [parts, List.length_map]
  induction s.toList with
  | nil => rfl
  | cons c more ih =>
    rw [List.splitOn_cons_eq_if_modifyHead, List.count_cons]
    by_cases h : c == sep
    · simp only [h, if_true, List.length_cons, ih]
    · simp only [h, Bool.false_eq_true, if_false, List.length_modifyHead, ih, Nat.add_zero]

theorem dropLast_parts {sep : Char} {s : String} :
    (parts sep s).dropLast = [] ↔ sep ∉ s.toList := by
  rw [← List.length_eq_zero_iff, List.length_dropLast, length_parts, Nat.add_sub_cancel,
    List.count_eq_zero]

end Text

theorem filterMap_ite {α β : Type} {p : α → Prop} [DecidablePred p] (item : α → β) (l : List α) :
    (l.filterMap fun a ↦ if p a then some (item a) else none) = (l.filter (p ·)).map item := by
  induction l with
  | nil => rfl
  | cons a more ih =>
    by_cases h : p a
    · simpa [h] using ih
    · simpa [h] using ih

namespace Place

variable {α : Type}

def root? : Place α → Option α
  | .root item => some item
  | .related _ _ => none

def related? : Place α → Option (String × α)
  | .root _ => none
  | .related chain item => some (chain, item)

@[simp] theorem root?_root (item : α) : (root item).root? = some item := rfl

@[simp] theorem root?_related (chain : String) (item : α) : (related chain item).root? = none := rfl

@[simp] theorem related?_root (item : α) : (root item).related? = none := rfl

@[simp] theorem related?_related (chain : String) (item : α) :
    (related chain item).related? = some (chain, item) := rfl

end Place

/-- The items of each chain, the chains in the order in which they first occur. -/
def byChain {α : Type} (items : List (String × α)) : List (String × List α) :=
  (items.map (·.1)).eraseDups.map fun chain ↦
    (chain, (items.filter (·.1 == chain)).map (·.2))

namespace Request

def rootFilters (r : Request) : List Filter := r.filters.filterMap (·.place.root?)

def relatedFilters (r : Request) (connective : Connective) : List (String × List Filter) :=
  byChain ((r.filters.filterMap (·.place.related?)).filter (·.2.connective = connective))

def conjoined (r : Request) : List (String × List Filter) := r.relatedFilters .and

def disjoined (r : Request) : List (String × List Filter) :=
  (r.relatedFilters .or).filter fun group ↦ group.1 ∉ r.conjoined.map (·.1)

def rootOrders (r : Request) : List Order := r.orders.filterMap (·.place.root?)

def relatedOrders (r : Request) : List (String × List Order) :=
  byChain (r.orders.filterMap (·.place.related?))

def loadedChains (r : Request) : List String :=
  (r.includedChains ++ r.relatedOrders.map (·.1)).eraseDups

end Request

namespace Filter

/-- The relations of the field, each in camel case, joined by dots. -/
def chain (f : Filter) : String :=
  ".".intercalate ((Text.parts '.' f.field).dropLast.map Text.camel)

def leaf (f : Filter) : String := (Text.parts '.' f.field).getLastD ""

/-- The filter asks something of a column behind relations. -/
def IsRelated (f : Filter) : Prop := '.' ∈ f.field.toList ∧ f.operator ≠ "has"

instance (f : Filter) : Decidable f.IsRelated := inferInstanceAs (Decidable (_ ∧ _))

/-- The filter as one of the listing itself, where a path can only name relations. -/
def onListing (f : Filter) : Filter :=
  if '.' ∈ f.field.toList then { f with field := f.chain } else f

end Filter

theorem Path.chain?_ofAttribute (field : String) : (Path.ofAttribute field).chain? =
    if '.' ∈ field.toList then
      some (".".intercalate ((Text.parts '.' field).dropLast.map Text.camel))
    else none := by
  by_cases h : field = ""
  · subst h
    rfl
  · simp only [chain?, hasRelations, ofAttribute, segments, h, if_false, List.isEmpty_map]
    by_cases hd : '.' ∈ field.toList
    · have hne : (Text.parts '.' field).dropLast ≠ [] := fun he ↦ Text.dropLast_parts.mp he hd
      simp [hd, hne]
    · simp [hd, Text.dropLast_parts.mpr hd]

theorem Path.leaf_ofAttribute (field : String) :
    (Path.ofAttribute field).leaf = (Text.parts '.' field).getLastD "" := by
  by_cases h : field = ""
  · subst h
    rfl
  · simp only [ofAttribute, segments, h, if_false]

theorem Filter.place_eq (f : Filter) : f.place =
    if f.IsRelated then .related f.chain { f with field := f.leaf } else .root f.onListing := by
  simp only [place, Path.chain?_ofAttribute, Path.leaf_ofAttribute, Operator.code, IsRelated,
    onListing]
  by_cases hd : '.' ∈ f.field.toList
  · by_cases ho : f.operator = "has"
    · simp only [hd, ho, if_true, not_true_eq_false, and_false, if_false, ne_eq]
      rfl
    · simp only [hd, ho, if_true, not_false_eq_true, and_self, if_false, ne_eq]
      rfl
  · simp only [hd, if_false, false_and]

theorem byChain_map {α β : Type} (chain : α → String) (item : α → β) (l : List α) :
    byChain (l.map fun a ↦ (chain a, item a)) =
      (l.map chain).eraseDups.map fun name ↦ (name, (l.filter (chain · = name)).map item) := by
  simp only [byChain, List.map_map, Function.comp_def, List.filter_map]
  rfl

theorem nodup_eraseDups {α : Type} [DecidableEq α] : ∀ l : List α, l.eraseDups.Nodup
  | [] => List.nodup_nil
  | a :: l => by
    rw [List.eraseDups_cons, List.nodup_cons]
    refine ⟨fun h ↦ ?_, nodup_eraseDups _⟩
    simpa using List.mem_filter.mp (List.mem_eraseDups.mp h)
termination_by l => l.length
decreasing_by exact Nat.lt_succ_of_le (List.length_filter_le _ _)

namespace Request

variable (r : Request)

def relatedBy (c : Connective) : List Filter :=
  r.filters.filter fun f ↦ f.IsRelated ∧ f.connective = c

def chainsBy (c : Connective) : List String := ((r.relatedBy c).map Filter.chain).eraseDups

/-- The chains that a group of `c` opens. Those of conjoined filters are not opened again. -/
def opened : Connective → List String
  | .and => r.chainsBy .and
  | .or => (r.chainsBy .or).filter (· ∉ r.chainsBy .and)

def along (c : Connective) (chain : String) : List Filter :=
  (r.relatedBy c).filter (·.chain = chain)

/-- A filter that no group takes up: it is disjoined, and its chain has conjoined filters. -/
def Skips (f : Filter) : Prop :=
  f.IsRelated ∧ f.connective = .or ∧
    ∃ g ∈ r.filters, g.IsRelated ∧ g.connective = .and ∧ g.chain = f.chain

def groups : Connective → List (String × List Filter)
  | .and => r.conjoined
  | .or => r.disjoined

theorem rootFilters_eq :
    r.rootFilters = (r.filters.filter fun f ↦ ¬ f.IsRelated).map Filter.onListing := by
  have h (f : Filter) : f.place.root? = if ¬ f.IsRelated then some f.onListing else none := by
    rw [Filter.place_eq, ite_not]
    split <;> rfl
  simp only [rootFilters, h]
  exact filterMap_ite Filter.onListing r.filters

theorem relatedFilters_eq (c : Connective) : r.relatedFilters c =
    (r.chainsBy c).map fun chain ↦
      (chain, (r.along c chain).map fun f ↦ { f with field := f.leaf }) := by
  have h (f : Filter) : f.place.related? =
      if f.IsRelated then some (f.chain, { f with field := f.leaf }) else none := by
    rw [Filter.place_eq]
    split <;> rfl
  have hby : (r.filters.filterMap (·.place.related?)).filter (·.2.connective = c) =
      (r.relatedBy c).map fun f ↦ (f.chain, { f with field := f.leaf }) := by
    simp only [h]
    rw [filterMap_ite, List.filter_map, List.filter_filter, relatedBy]
    refine congrArg _ (List.filter_congr fun f _ ↦ ?_)
    rw [Bool.decide_and, Bool.and_comm]
    rfl
  rw [relatedFilters, hby, byChain_map]
  rfl

theorem groups_eq (c : Connective) : r.groups c =
    (r.opened c).map fun chain ↦
      (chain, (r.along c chain).map fun f ↦ { f with field := f.leaf }) := by
  cases c with
  | and => exact r.relatedFilters_eq .and
  | or =>
    have h : r.conjoined.map (·.1) = r.chainsBy .and := by
      rw [conjoined, relatedFilters_eq, List.map_map]
      exact List.map_id _
    simp only [groups, disjoined, relatedFilters_eq, h, List.filter_map, opened]
    rfl

theorem mem_chainsBy {c : Connective} {chain : String} :
    chain ∈ r.chainsBy c ↔ ∃ f ∈ r.relatedBy c, f.chain = chain := by
  rw [chainsBy, List.mem_eraseDups, List.mem_map]

theorem mem_relatedBy {c : Connective} {f : Filter} :
    f ∈ r.relatedBy c ↔ f ∈ r.filters ∧ f.IsRelated ∧ f.connective = c := by
  simp [relatedBy]

theorem chain_mem_opened {f : Filter} (hf : f ∈ r.filters) (hr : f.IsRelated) :
    f.chain ∈ r.opened f.connective ↔ ¬ r.Skips f := by
  have hby : f.chain ∈ r.chainsBy f.connective :=
    r.mem_chainsBy.mpr ⟨f, r.mem_relatedBy.mpr ⟨hf, hr, rfl⟩, rfl⟩
  cases hc : f.connective with
  | and => exact iff_of_true (by rwa [hc] at hby) (by simp [Skips, hc])
  | or =>
    rw [hc] at hby
    simp only [opened, List.mem_filter, hby, true_and, decide_eq_true_eq, mem_chainsBy,
      mem_relatedBy, Skips, hr, hc, and_assoc]

theorem nodup_opened (c : Connective) : (r.opened c).Nodup := by
  cases c with
  | and => exact nodup_eraseDups _
  | or => exact (nodup_eraseDups _).filter _

end Request

section Keys

variable {α κ : Type} [DecidableEq κ] {key : α → κ}

theorem filter_flatMap_key {keys : List κ} (h : keys.Nodup) (l : List α) (k : κ) :
    (keys.flatMap fun k ↦ l.filter (key · = k)).filter (key · = k) =
      if k ∈ keys then l.filter (key · = k) else [] := by
  induction keys with
  | nil => rfl
  | cons first more ih =>
    obtain ⟨hfirst, hmore⟩ := List.nodup_cons.mp h
    rw [List.flatMap_cons, List.filter_append, ih hmore, List.filter_filter]
    by_cases hk : first = k
    · subst hk
      simp [hfirst]
    · have hnone : l.filter (fun a ↦ decide (key a = k) && decide (key a = first)) = [] := by
        refine List.filter_eq_nil_iff.mpr fun a _ ha ↦ hk ?_
        simp only [Bool.and_eq_true, decide_eq_true_eq] at ha
        exact ha.2.symm.trans ha.1
      rw [hnone, List.nil_append]
      simp only [List.mem_cons, Ne.symm hk, false_or]

theorem perm_of_filter_key [DecidableEq α] {l l' : List α}
    (h : ∀ k, l.filter (key · = k) = l'.filter (key · = k)) : l.Perm l' := by
  refine List.perm_iff_count.mpr fun a ↦ ?_
  have hcount (l : List α) : (l.filter (key · = key a)).count a = l.count a :=
    List.count_filter (by simp)
  rw [← hcount l, h, hcount]

end Keys

def Filter.key (f : Filter) : Option (Connective × String) :=
  if f.IsRelated then some (f.connective, f.chain) else none

namespace Request

variable (r : Request)

instance (f : Filter) : Decidable (r.Skips f) := inferInstanceAs (Decidable (_ ∧ _ ∧ _))

def keys : List (Option (Connective × String)) :=
  none :: ((r.opened .and).map (fun chain ↦ some (.and, chain)) ++
    (r.opened .or).map fun chain ↦ some (.or, chain))

def routed : List Filter := r.keys.flatMap fun k ↦ r.filters.filter (·.key = k)

theorem mem_keys {c : Connective} {chain : String} :
    some (c, chain) ∈ r.keys ↔ chain ∈ r.opened c := by
  cases c <;> simp [keys]

theorem nodup_keys : r.keys.Nodup := by
  have hmap (c : Connective) : ((r.opened c).map fun chain ↦ some (c, chain)).Nodup :=
    List.Nodup.map (fun chain chain' h ↦ by simpa using h) (r.nodup_opened c)
  refine List.nodup_cons.mpr ⟨by simp, List.Nodup.append (hmap .and) (hmap .or) ?_⟩
  intro k hand hor
  obtain ⟨chain, -, rfl⟩ := List.mem_map.mp hand
  simp at hor

theorem key_mem_keys {f : Filter} (hf : f ∈ r.filters) : f.key ∈ r.keys ↔ ¬ r.Skips f := by
  by_cases hr : f.IsRelated
  · rw [Filter.key, if_pos hr, mem_keys, r.chain_mem_opened hf hr]
  · rw [Filter.key, if_neg hr]
    exact iff_of_true List.mem_cons_self fun h ↦ hr h.1

theorem routed_filter_key (k : Option (Connective × String)) :
    r.routed.filter (·.key = k) = (r.filters.filter (¬ r.Skips ·)).filter (·.key = k) := by
  rw [routed, filter_flatMap_key r.nodup_keys, List.filter_filter]
  by_cases hk : k ∈ r.keys
  · rw [if_pos hk]
    refine List.filter_congr fun f hf ↦ ?_
    by_cases h : f.key = k
    · have hs : ¬ r.Skips f := (r.key_mem_keys hf).mp (h ▸ hk)
      simp [h, hs]
    · simp [h]
  · rw [if_neg hk]
    refine (List.filter_eq_nil_iff.mpr fun f hf h ↦ ?_).symm
    simp only [Bool.and_eq_true, decide_eq_true_eq] at h
    exact hk (h.1 ▸ (r.key_mem_keys hf).mpr h.2)

theorem routed_perm : r.routed.Perm (r.filters.filter (¬ r.Skips ·)) :=
  perm_of_filter_key r.routed_filter_key

theorem along_eq (c : Connective) (chain : String) :
    r.along c chain = r.filters.filter (·.key = some (c, chain)) := by
  rw [along, relatedBy, List.filter_filter]
  refine List.filter_congr fun f _ ↦ ?_
  by_cases hr : f.IsRelated
  · simp [Filter.key, hr, Bool.and_comm]
  · simp [Filter.key, hr]

theorem routed_eq : r.routed = (r.filters.filter (¬ ·.IsRelated)) ++
    ((r.opened .and).flatMap (r.along .and) ++ (r.opened .or).flatMap (r.along .or)) := by
  have hroot (f : Filter) : f.key = none ↔ ¬ f.IsRelated := by simp [Filter.key]
  simp only [routed, keys, List.flatMap_cons, List.flatMap_append, List.flatMap_map, hroot,
    ← along_eq]

end Request

end Listing
