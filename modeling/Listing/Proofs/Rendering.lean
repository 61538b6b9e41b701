import Listing.Proofs.Grammar
import Listing.Proofs.Nesting
import Listing.Proofs.NormalForm

namespace Listing.Sql

open Listing.Sql.Expr

section

variable (v : Token → Truth)

mutual

/-- The truth of a condition where tests and existences have the truth that they are given. -/
def Condition.given : Condition → Truth
  | .atom a => v (.test a)
  | .existing table c members => v (.existing table (Junction.tokens ⟨c, members⟩))
  | .joined c members => Truth.joined c (Condition.givenAll members)

def Condition.givenAll : List Condition → List Truth
  | [] => []
  | c :: more => c.given :: Condition.givenAll more

end

def Junction.given (j : Junction) : Truth :=
  Truth.joined j.connective (Condition.givenAll v j.members)

end

namespace Written

def level (w : Written) : Level :=
  match w.outer? with
  | none => .unit
  | some .and => .conjunction
  | some .or => .disjunction

def Says (w : Written) (e : Expr) : Prop := Reads w.level w.tokens e

theorem Says.disjunction {w : Written} {e : Expr} (h : w.Says e) :
    Reads .disjunction w.tokens e := by
  unfold Says level at h
  split at h
  · exact h.unit.conjunction
  · exact h.conjunction
  · exact h

theorem Says.right {w : Written} {e : Expr} (h : w.Says e) :
    Reads .unit (if w.outer?.isSome then w.enclosed else w.tokens) e := by
  cases ho : w.outer? with
  | none =>
    unfold Says level at h
    rw [ho] at h
    exact h
  | some c => exact h.disjunction.enclosed

theorem Says.left {w : Written} {e : Expr} (h : w.Says e) (c : Connective) :
    Reads (if c = .and then .conjunction else .disjunction)
      (if w.outer?.any (· ≠ c) then w.enclosed else w.tokens) e := by
  have hright := h.right
  have hall := h.disjunction
  unfold Says level at h
  cases ho : w.outer? with
  | none =>
    rw [ho] at hright
    cases c with
    | and => exact hright.unit
    | or => exact hright.unit.conjunction
  | some d =>
    rw [ho] at h hright
    cases c with
    | and =>
      cases d with
      | and => exact h
      | or => exact hright.unit
    | or =>
      cases d with
      | and => exact hright.unit.conjunction
      | or => exact h

theorem Says.join {l r : Written} {e f : Expr} (hl : l.Says e) (hr : r.Says f) (c : Connective) :
    (Written.join c l r).Says (.joined c e f) := by
  have hleft := hl.left c
  have hright := hr.right
  cases c with
  | and => exact Reads.and hleft hright
  | or => exact Reads.or hleft hright.unit

theorem says_foldl {c : Connective} {ws : List Written} {es : List Expr}
    (h : List.Forall₂ Says ws es) {w : Written} {e : Expr} (hw : w.Says e) :
    (ws.foldl (Written.join c) w).Says (es.foldl (.joined c) e) := by
  induction h generalizing w e with
  | nil => exact hw
  | cons hfirst _ ih => exact ih (hw.join hfirst c)

end Written

theorem Expr.truth_foldl (v : Token → Truth) (c : Connective) (es : List Expr) (e : Expr) :
    (es.foldl (.joined c) e).truth v = Truth.joined c (e.truth v :: es.map (Expr.truth v)) := by
  induction es generalizing e with
  | nil => exact (Truth.joined_singleton c _).symm
  | cons f es ih =>
    rw [List.foldl_cons, ih, List.map_cons]
    cases c with
    | and => exact inf_assoc _ _ _
    | or => exact sup_assoc _ _ _

theorem Written.says_joinAll {c : Connective} {ws : List Written} {es : List Expr}
    (h : List.Forall₂ Says ws es) (hne : ws ≠ []) : ∃ e, (joinAll c ws).Says e ∧
      ∀ v, e.truth v = Truth.joined c (es.map (Expr.truth v)) := by
  cases h with
  | nil => exact absurd rfl hne
  | @cons w e ws es hw hmore => exact ⟨_, says_foldl hmore hw, fun v ↦ truth_foldl v c es e⟩

variable {catalog : Catalog}

mutual

theorem Condition.Normal.says : ∀ {c : Condition}, c.Normal catalog →
    ∃ e, c.written.Says e ∧ ∀ v, e.truth v = c.given v
  | .atom a, _ => ⟨_, Reads.test a, fun _ ↦ rfl⟩
  | .existing table c members, _ => ⟨_, Reads.existing table _, fun _ ↦ rfl⟩
  | .joined c members, h => by
    obtain ⟨hlength, hall⟩ := h
    obtain ⟨es, hsays, htruth⟩ := Condition.says_members hall
    have hne : Condition.writtenAll members ≠ [] := by
      cases members with
      | nil => simp at hlength
      | cons first more => exact List.cons_ne_nil _ _
    obtain ⟨e, he, hjoined⟩ := Written.says_joinAll (c := c) hsays hne
    refine ⟨e, he, fun v ↦ ?_⟩
    rw [hjoined, htruth]
    rfl

theorem Condition.says_members : ∀ {members : List Condition},
    Condition.NormalAll catalog members → ∃ es,
      List.Forall₂ Written.Says (Condition.writtenAll members) es ∧
        ∀ v, es.map (Expr.truth v) = Condition.givenAll v members
  | [], _ => ⟨[], .nil, fun _ ↦ rfl⟩
  | c :: more, h => by
    obtain ⟨e, he, htruth⟩ := Condition.Normal.says h.1
    obtain ⟨es, hes, hmore⟩ := Condition.says_members h.2
    refine ⟨e :: es, .cons he hes, fun v ↦ ?_⟩
    rw [List.map_cons, htruth, hmore]
    rfl

end

/-- A normal condition is written so that the grammar reads it in one way and with its meaning. -/
theorem Junction.Normal.read {j : Junction} (h : j.Normal catalog) : ∃ e,
    (∀ f, Reads .disjunction j.tokens f ↔ f = e) ∧ ∀ v, e.truth v = j.given v := by
  obtain ⟨es, hsays, htruth⟩ := Condition.says_members (Condition.normalAll_iff.mpr h.members)
  have hne : Condition.writtenAll j.members ≠ [] := by
    have hmembers := h.ne_nil
    cases hm : j.members with
    | nil => exact absurd hm hmembers
    | cons first more => exact List.cons_ne_nil _ _
  obtain ⟨e, he, hjoined⟩ := Written.says_joinAll (c := j.connective) hsays hne
  refine ⟨e, fun f ↦ ⟨fun hf ↦ hf.unique he.disjunction, ?_⟩, fun v ↦ ?_⟩
  · rintro rfl
    exact he.disjunction
  · rw [hjoined, htruth]
    rfl

end Listing.Sql

namespace Listing

open Sql Expr

/-- Whatever steps a draft has gone through, all conditions of its queries are read with the
grouping that they have, however the tests in them turn out. -/
theorem Draft.Reachable.grouping {source : Source} {d : Draft} (hd : d.Reachable source)
    {s : Select} (hs : d.Queries s) {j : Junction} (hj : j ∈ s.junctions) :
    ∃ e, (∀ f, Reads .disjunction j.tokens f ↔ f = e) ∧ ∀ v, e.truth v = j.given v := by
  have hnormal := hd.built.normal
  exact (hnormal.junctions hs j hj).read

def moving : List Step :=
  [.load [.scoped "desk" [.restrict ⟨.null "room", .and⟩, .restrict ⟨.null "floor", .or⟩]]]

def unplaced : Junction :=
  ⟨.and, [.joined .or [.atom (.null ⟨"desks", "room"⟩), .atom (.null ⟨"desks", "floor"⟩)],
    .atom (.oneOf ⟨"desks", "employee_id"⟩ [.int 7])]⟩

theorem grouping_moving :
    ((Step.runAll Step.office moving { table := "employees" }).draft.loads.map fun load ↦
      (load.keyed [.int 7]).junctions) = [[unplaced]] ∧
    ∃ e, (∀ f, Reads .disjunction unplaced.tokens f ↔ f = e) ∧
      ∀ v, e.truth v = (v (.test (.null ⟨"desks", "room"⟩)) ⊔
        v (.test (.null ⟨"desks", "floor"⟩))) ⊓
          v (.test (.oneOf ⟨"desks", "employee_id"⟩ [.int 7])) := by
  have hjunctions : ((Step.runAll Step.office moving { table := "employees" }).draft.loads.map
      fun load ↦ (load.keyed [.int 7]).junctions) = [[unplaced]] := rfl
  obtain ⟨load, hload, hj⟩ := List.mem_map.mp (hjunctions ▸ List.mem_singleton_self [unplaced])
  have hfresh : Draft.Reachable Step.office { table := "employees" } := .fresh "employees"
  have hreachable := hfresh.runAll moving
  obtain ⟨e, hread, htruth⟩ := hreachable.grouping (.keyed [.int 7] hload)
    (hj ▸ List.mem_singleton_self unplaced)
  refine ⟨hjunctions, e, hread, fun v ↦ ?_⟩
  have hgiven : unplaced.given v = (v _ ⊔ (v _ ⊔ ⊥)) ⊓ (v _ ⊓ ⊤) := rfl
  rw [htruth, hgiven, sup_bot_eq, inf_top_eq]

end Listing
