import Listing.Proofs.Assembly

namespace Listing

/-- Where the first succeeds, the second succeeds from every related state, and their values and
the states they end in are related again. -/
def Sim {σ σ' α α' : Type} (R : σ → σ' → Prop) (V : α → α' → Prop) (m : EStateM Failure σ α)
    (m' : EStateM Failure σ' α') : Prop :=
  ∀ s s', R s s' → ∀ a t, m s = .ok a t → ∃ a' t', m' s' = .ok a' t' ∧ V a a' ∧ R t t'

namespace Sim

variable {σ σ' α α' β β' γ : Type} {R : σ → σ' → Prop} {V : α → α' → Prop} {W : β → β' → Prop}

theorem pure {a : α} {a' : α'} (h : V a a') : Sim R V (pure a) (pure a') := by
  intro s s' hs b t hb
  obtain ⟨rfl, rfl⟩ := EStateM.Result.ok.inj hb
  exact ⟨a', s', rfl, h, hs⟩

theorem throw {m' : EStateM Failure σ' α'} (f : Failure) : Sim R V (throw f) m' :=
  fun _ _ _ _ _ h ↦ nomatch h

theorem bind {m : EStateM Failure σ α} {m' : EStateM Failure σ' α'} {k : α → EStateM Failure σ β}
    {k' : α' → EStateM Failure σ' β'} (h : Sim R V m m')
    (hk : ∀ a a', V a a' → Sim R W (k a) (k' a')) : Sim R W (m >>= k) (m' >>= k') := by
  intro s s' hs b u hb
  obtain ⟨a, t, hm, hb⟩ := Builder.bind_eq_ok hb
  obtain ⟨a', t', hm', ha, ht⟩ := h s s' hs a t hm
  rw [Builder.bind_ok hm']
  exact hk a a' ha t t' ht b u hb

theorem forM {f : γ → EStateM Failure σ Unit} {f' : γ → EStateM Failure σ' Unit} {l : List γ}
    (h : ∀ x ∈ l, Sim R Eq (f x) (f' x)) : Sim R Eq (l.forM f) (l.forM f') := by
  induction l with
  | nil => exact pure rfl
  | cons x more ih =>
    obtain ⟨hx, hmore⟩ := List.forall_mem_cons.mp h
    exact hx.bind fun _ _ _ ↦ ih hmore

theorem mapM {f : γ → EStateM Failure σ α} {f' : γ → EStateM Failure σ' α} {l : List γ}
    (h : ∀ x ∈ l, Sim R Eq (f x) (f' x)) : Sim R Eq (l.mapM f) (l.mapM f') := by
  induction l with
  | nil => exact pure rfl
  | cons x more ih =>
    obtain ⟨hx, hmore⟩ := List.forall_mem_cons.mp h
    rw [List.mapM_cons, List.mapM_cons]
    refine hx.bind fun a _ ha ↦ (ih hmore).bind fun l _ hl ↦ ?_
    exact pure (ha ▸ hl ▸ rfl)

theorem foldlM {f : α → γ → EStateM Failure σ α} {f' : α' → γ → EStateM Failure σ' α'}
    {l : List γ} (h : ∀ x ∈ l, ∀ a a', V a a' → Sim R V (f a x) (f' a' x)) {a : α} {a' : α'}
    (ha : V a a') : Sim R V (l.foldlM f a) (l.foldlM f' a') := by
  induction l generalizing a a' with
  | nil => exact pure ha
  | cons x more ih =>
    obtain ⟨hx, hmore⟩ := List.forall_mem_cons.mp h
    rw [List.foldlM_cons, List.foldlM_cons]
    exact (hx a a' ha).bind fun _ _ hb ↦ ih hmore hb

end Sim

inductive Include.Alike {σ σ' : Type} (R : String → σ → σ' → Prop) :
    Include (EStateM Failure σ Unit) → Include (EStateM Failure σ' Unit) → Prop
  | whole (chain : String) : Alike R (.plain chain) (.plain chain)
  | within (chain : String) {scope : List (EStateM Failure σ Unit)}
      {scope' : List (EStateM Failure σ' Unit)}
      (h : ∀ table, Sim (R table) Eq (scope.forM id) (scope'.forM id)) :
      Alike R (.scoped chain scope) (.scoped chain scope')

namespace Include.Alike

variable {σ σ' : Type} {R : String → σ → σ' → Prop}

theorem chain_eq {i : Include (EStateM Failure σ Unit)} {i' : Include (EStateM Failure σ' Unit)}
    (h : Alike R i i') : i.chain = i'.chain := by
  cases h <;> rfl

theorem put {i : Include (EStateM Failure σ Unit)} {i' : Include (EStateM Failure σ' Unit)}
    {l : List (Include (EStateM Failure σ Unit))} {l' : List (Include (EStateM Failure σ' Unit))}
    (h : Alike R i i') (hl : List.Forall₂ (Alike R) l l') :
    List.Forall₂ (Alike R) (i.put l) (i'.put l') := by
  induction hl with
  | nil => exact .cons h .nil
  | @cons other other' more more' hother hmore ih =>
    rw [Include.put, Include.put, hother.chain_eq, h.chain_eq]
    by_cases heq : other'.chain = i'.chain
    · rw [if_pos heq, if_pos heq]
      exact .cons h hmore
    · rw [if_neg heq, if_neg heq]
      exact .cons hother ih

end Include.Alike

namespace Builder

variable {σ σ' : Type}

/-- Each call to the first builder is simulated by the same call to the second, between states that
are related as queries of one table. Scopes need to be simulated only where they are opened. -/
structure Simulates (B : Builder σ) (B' : Builder σ') (R : String → σ → σ' → Prop) : Prop where
  restrict : ∀ table p, Sim (R table) Eq (B.restrict p) (B'.restrict p)
  group : ∀ table c scope scope', Sim (R table) Eq scope scope' →
    Sim (R table) Eq (B.group c scope) (B'.group c scope')
  existing : ∀ table chain c scope scope', (∀ inner, Sim (R inner) Eq scope scope') →
    Sim (R table) Eq (B.existing chain c scope) (B'.existing chain c scope')
  order : ∀ table o, Sim (R table) Eq (B.order o) (B'.order o)
  load : ∀ table includes includes', List.Forall₂ (Include.Alike R) includes includes' →
    Sim (R table) Eq (B.load includes) (B'.load includes')
  limit : ∀ table n, Sim (R table) Eq (B.limit n) (B'.limit n)
  offset : ∀ table n, Sim (R table) Eq (B.offset n) (B'.offset n)

namespace Simulates

variable {B : Builder σ} {B' : Builder σ'} {R : String → σ → σ' → Prop} (h : B.Simulates B' R)
  (separator : Char) (table : String)
include h

theorem filterStep (f : Filter) : Sim (R table) Eq (B.step (Script.filterStep separator f))
    (B'.step (Script.filterStep separator f)) := by
  unfold Script.filterStep
  cases f.predicate separator with
  | ok p => exact h.restrict table p
  | error e => exact Sim.throw e

theorem applyExisting (c : Connective) (chain name : String) (filters : List Filter) :
    Sim (R table) Eq (B.applyExisting separator c chain name filters)
      (B'.applyExisting separator c chain name filters) := by
  refine h.existing table chain c _ _ fun inner ↦ Sim.forM fun f _ ↦ ?_
  rw [apply_eq, apply_eq]
  exact h.group inner .and _ _ (h.filterStep separator inner _)

section Lookups

variable {chains : List String}
  (hlookup : ∀ chain ∈ chains, Sim (R table) Eq (B.tableAt chain) (B'.tableAt chain))
include hlookup

theorem applyRelated (c : Connective) {groups : Groups Filter}
    (hgroups : ∀ group ∈ groups, group.1 ∈ chains) :
    Sim (R table) Eq (B.applyRelated separator c groups)
      (B'.applyRelated separator c groups) := by
  unfold Builder.applyRelated
  cases groups.isEmpty with
  | true => exact Sim.pure rfl
  | false =>
    have hnamed : Sim (R table) Eq (B.lookUp groups) (B'.lookUp groups) := by
      refine Sim.mapM fun group hgroup ↦ (hlookup _ (hgroups group hgroup)).bind ?_
      exact fun _ _ ht ↦ Sim.pure (ht ▸ rfl)
    refine hnamed.bind fun named _ heq ↦ heq ▸ h.group table c _ _ ?_
    exact Sim.forM fun n _ ↦ h.applyExisting separator table c n.1 n.2.1 n.2.2

theorem applyIncludes (included : List String) {groups : Groups Order}
    (hgroups : ∀ group ∈ groups, group.1 ∈ chains) :
    Sim (R table) Eq (B.applyIncludes included groups) (B'.applyIncludes included groups) := by
  have hplain : List.Forall₂ (Include.Alike R) (included.map .plain) (included.map .plain) := by
    rw [List.forall₂_map_left_iff, List.forall₂_map_right_iff]
    exact List.forall₂_same.mpr fun chain _ ↦ .whole chain
  have hordered (chain name : String) (orders : List Order) :
      Include.Alike R (B.includeOrdered chain name orders)
        (B'.includeOrdered chain name orders) := by
    refine .within chain fun inner ↦ ?_
    induction orders with
    | nil => exact Sim.pure rfl
    | cons o more ih => exact (h.order inner _).bind fun _ _ _ ↦ ih
  have hmerge : Sim (R table) (List.Forall₂ (Include.Alike R))
      (B.mergeOrders groups (included.map .plain))
      (B'.mergeOrders groups (included.map .plain)) := by
    refine Sim.foldlM (fun group hgroup includes includes' hincludes ↦ ?_) hplain
    refine (hlookup _ (hgroups group hgroup)).bind fun name _ hname ↦ Sim.pure ?_
    exact hname ▸ (hordered group.1 name group.2).put hincludes
  refine hmerge.bind fun includes includes' hincludes ↦ ?_
  cases hincludes with
  | nil => exact Sim.pure rfl
  | cons hi hmore => exact h.load table _ _ (.cons hi hmore)

end Lookups

theorem arrange {r : Request}
    (hlookup : ∀ chain ∈ Script.lookups r, Sim (R table) Eq (B.tableAt chain) (B'.tableAt chain)) :
    Sim (R table) Eq (B.arrange separator r) (B'.arrange separator r) := by
  simp only [Script.lookups, List.forall_mem_append] at hlookup
  obtain ⟨⟨hand, hor⟩, horders⟩ := hlookup
  rw [arrange_eq, arrange_eq, steps_map, steps_map, steps_map, steps_map]
  refine (Sim.forM fun f _ ↦ h.filterStep separator table f).bind fun _ _ _ ↦ ?_
  refine (Sim.forM fun o _ ↦ h.order table o).bind fun _ _ _ ↦ ?_
  refine (h.applyRelated separator table hand .and ?_).bind fun _ _ _ ↦ ?_
  · exact fun group hgroup ↦ List.mem_map_of_mem hgroup
  refine (h.applyRelated separator table hor .or ?_).bind fun _ _ _ ↦ ?_
  · exact fun group hgroup ↦ List.mem_map_of_mem hgroup
  exact h.applyIncludes table horders _ fun group hgroup ↦ List.mem_map_of_mem hgroup

theorem turnTo (w : Window) :
    Sim (R table) Eq (B.turnTo (some w)) (B'.turnTo (some w)) := by
  refine (h.limit table w.limit).bind fun _ _ _ ↦ (h.offset table w.offset).bind fun _ _ _ ↦ ?_
  exact Sim.pure rfl

end Simulates

end Builder

end Listing
