import Listing.Proofs.Chains
import Listing.Proofs.Segments

namespace Listing

def Order.leaf (o : Order) : String := Text.lastPart o.field

theorem Order.related?_place (o : Order) : o.place.related? =
    if '.' ∈ o.field.toList then some (o.chain, { o with field := o.leaf }) else none := by
  rw [place_eq]
  split <;> rfl

theorem lookup_map_pair {α β : Type} [BEq α] [LawfulBEq α] (keys : List α) (value : α → β)
    (key : α) (h : key ∈ keys) :
    (keys.map fun k ↦ (k, value k)).lookup key = some (value key) := by
  induction keys with
  | nil => exact absurd h List.not_mem_nil
  | cons first more ih =>
    rw [List.map_cons, List.lookup_cons]
    by_cases hkey : key = first
    · rw [hkey, beq_self_eq_true]
    · rw [beq_false_of_ne hkey]
      exact ih ((List.mem_cons.mp h).resolve_left hkey)

namespace Request

variable (r : Request)

def ordersAlong (chain : String) : List Order :=
  r.orders.filter fun o ↦ '.' ∈ o.field.toList ∧ o.chain = chain

theorem mem_ordersAlong {chain : String} {o : Order} :
    o ∈ r.ordersAlong chain ↔ o ∈ r.orders ∧ '.' ∈ o.field.toList ∧ o.chain = chain := by
  rw [ordersAlong, List.mem_filter, decide_eq_true_eq]

theorem rootOrders_eq : r.rootOrders = r.orders.filter ('.' ∉ ·.field.toList) := by
  have h (o : Order) : o.place.root? = if '.' ∉ o.field.toList then some o else none := by
    rw [Order.place_eq, ite_not]
    split <;> rfl
  simp only [rootOrders, h]
  rw [filterMap_ite, List.map_id']

theorem relatedOrders_eq : r.relatedOrders = (r.relatedOrders.map (·.1)).map fun chain ↦
    (chain, (r.ordersAlong chain).map fun o ↦ { o with field := o.leaf }) := by
  have hitems : r.orders.filterMap (·.place.related?) =
      (r.orders.filter ('.' ∈ ·.field.toList)).map fun o ↦
        (o.chain, { o with field := o.leaf }) := by
    simp only [Order.related?_place]
    exact filterMap_ite _ r.orders
  have halong (chain : String) : (r.orders.filter ('.' ∈ ·.field.toList)).filter
      (·.chain = chain) = r.ordersAlong chain := by
    rw [List.filter_filter, ordersAlong]
    refine List.filter_congr fun o _ ↦ ?_
    rw [Bool.decide_and, Bool.and_comm]
  rw [relatedOrders, hitems, byChain_map, List.map_map, List.map_map]
  refine List.map_congr_left fun chain _ ↦ ?_
  simp only [Function.comp_apply, halong]

theorem ordersAlong_eq_nil {chain : String} :
    r.ordersAlong chain = [] ↔ chain ∉ r.relatedOrders.map (·.1) := by
  rw [mem_relatedOrders, List.eq_nil_iff_forall_not_mem]
  simp only [mem_ordersAlong, not_exists]

/-- What is loaded along a chain: its rows as they come, or in the order that is asked for. -/
def inclusion (tables : String → String) (chain : String) : Include Step :=
  if r.ordersAlong chain = [] then .plain chain
  else
    .scoped chain <| (r.ordersAlong chain).map fun o ↦
      .order { o with field := Path.qualify (tables chain) o.leaf }

end Request

namespace Script

theorem includeSteps_eq (tables : String → String) (r : Request) :
    includeSteps (.ok ∘ tables) r =
      if r.loadedChains = [] then [] else [.load (r.loadedChains.map (r.inclusion tables))] := by
  have hnamed : r.relatedOrders.map (fun item ↦ (item.1, tables item.1, item.2)) =
      (r.relatedOrders.map (·.1)).map fun chain ↦
        (chain, tables chain, (r.ordersAlong chain).map fun o ↦ { o with field := o.leaf }) := by
    conv_lhs => rw [r.relatedOrders_eq, List.map_map]
    rfl
  have hinclude (chain : String) :
      includeOf (r.relatedOrders.map fun item ↦ (item.1, tables item.1, item.2)) chain =
        r.inclusion tables chain := by
    rw [hnamed, includeOf, Request.inclusion]
    by_cases hchain : chain ∈ r.relatedOrders.map (·.1)
    · rw [lookup_map_pair _ (fun chain ↦ (tables chain, _)) chain hchain,
        if_neg (mt r.ordersAlong_eq_nil.mp (not_not.mpr hchain))]
      simp only [List.map_map]
      rfl
    · rw [if_pos (r.ordersAlong_eq_nil.mpr hchain), List.lookup_eq_none_iff.mpr]
      intro item hitem
      obtain ⟨other, hother, rfl⟩ := List.mem_map.mp hitem
      exact bne_iff_ne.mpr fun heq ↦ hchain (heq ▸ hother)
  simp only [includeSteps, withTables_ok, List.isEmpty_iff]
  exact congrArg (fun l ↦ if r.loadedChains = [] then [] else [Step.load (r.loadedChains.map l)])
    (funext hinclude)

end Script

namespace Step

variable {source : Source}

theorem runAll_orders {steps : List Step} {d : Draft}
    (h : (runAll source steps d).failure? = none) :
    (runAll source steps d).draft.orders = d.orders ++ steps.filterMap order? := by
  induction steps generalizing d with
  | nil => exact (List.append_nil _).symm
  | cons step more ih =>
    obtain ⟨hstep, hmore⟩ := Outcome.failure?_andThen.mp h
    obtain ⟨horders, -⟩ := run_frame source step d
    rw [runAll, Outcome.draft_andThen _ hstep, ih hmore, horders, List.append_assoc]
    cases ho : step.order? with
    | none => rw [List.filterMap_cons_none ho, Option.toList_none, List.nil_append]
    | some o => rw [List.filterMap_cons_some ho, Option.toList_some, List.singleton_append]

theorem runAll_map_order (orders : List Order) (d : Draft) :
    runAll source (orders.map .order) d =
      { draft := { d with orders := d.orders ++ orders } } := by
  induction orders generalizing d with
  | nil =>
    rw [List.append_nil]
    rfl
  | cons o more ih =>
    rw [List.map_cons, runAll, run]
    simp only [Outcome.andThen, Draft.order, ih, List.append_assoc, List.singleton_append,
      List.append_nil]

end Step

theorem Script.order?_ofRequest (separator : Char) (tables : String → String) (r : Request) :
    (ofRequest separator (.ok ∘ tables) r).steps.filterMap Step.order? = r.rootOrders := by
  have hfilter (f : Filter) : (filterStep separator f).order? = none := by
    unfold filterStep
    cases f.predicate separator <;> rfl
  have hroots : (r.rootFilters.map (filterStep separator)).filterMap Step.order? = [] := by
    simp [List.filterMap_map, hfilter]
  have horders : (r.rootOrders.map Step.order).filterMap Step.order? = r.rootOrders := by
    rw [List.filterMap_map]
    exact List.filterMap_some
  have hrelated (c : Connective) :
      (relatedSteps separator (.ok ∘ tables) c (r.groups c)).filterMap Step.order? = [] := by
    rw [relatedSteps_groups]
    split <;> rfl
  have hincludes : (includeSteps (.ok ∘ tables) r).filterMap Step.order? = [] := by
    rw [includeSteps_eq]
    split <;> rfl
  have hpage : (pageSteps r.page?).filterMap Step.order? = [] := by
    cases r.page? <;> rfl
  have hand := hrelated .and
  have hor := hrelated .or
  simp only [Request.groups] at hand hor
  simp only [ofRequest, List.filterMap_append, hroots, horders, hand, hor, hincludes, hpage,
    List.nil_append, List.append_nil]

end Listing
