import Listing.Proofs.Chains
import Listing.Proofs.Windows

namespace Listing

open Sql

namespace Draft

variable (d : Draft) (limit number : UInt64)

theorem matching_page {α : Type} (db : Database α) (ρ : Rows α) :
    (d.page limit number).select.matching db ρ = d.countSelect.matching db ρ := by
  obtain ⟨limit?, offset?, hselect⟩ := d.select_page limit number
  rw [hselect]
  rfl

theorem projection_page : (d.page limit number).select.projection = .rows := by
  obtain ⟨limit?, offset?, hselect⟩ := d.select_page limit number
  rw [hselect]
  rfl

theorem limit?_page :
    (d.page limit number).select.limit? = if 0 < limit then some limit else none := by
  simp only [page]
  split <;> rfl

theorem offset?_page_one :
    (d.page limit 1).select.offset? = if 0 < limit then some 0 else none := by
  have hstart : Window.offset ⟨0, limit⟩ = 0 := by
    apply UInt64.toNat_inj.mp
    rw [Window.toNat_offset, UInt64.toNat_zero, Nat.zero_mul, Nat.zero_min]
  have hfirst : (max 1 1 - 1 : UInt64) = 0 := rfl
  simp only [page, hfirst, hstart]
  split <;> rfl

theorem cut_page_one {β : Type} {l : List β} (h : l.length ≤ limit.toNat) :
    (d.page limit 1).select.cut l = l := by
  have hlimit := d.limit?_page limit 1
  have hoffset := d.offset?_page_one limit
  by_cases hpos : 0 < limit
  · rw [if_pos hpos] at hlimit hoffset
    simp only [Select.cut, hlimit, hoffset, Option.elim_some, UInt64.toNat_zero, List.drop_zero]
    exact List.take_of_length_le h
  · rw [if_neg hpos] at hlimit hoffset
    exact Select.cut_of_unbounded hlimit hoffset l

end Draft

/-- The count of a page, its own query and what was asked of the counter are about the same rows.
Without a page to ask for, the counter's number is the limit, so that the page has all rows if the
counter has told their number. -/
structure Planned.Counts (source : Source) (r : Request) (planned : Planned) (page : Page) :
    Prop where
  uncut : ∀ {α : Type} (db : Database α) (ρ : Rows α) (answer : Answer α),
    page.select.uncut.Answers db ρ answer ↔
      ∃ rows, answer = .rows rows ∧ rows.Perm (page.select.matching db ρ)
  total : ∀ {α : Type} (db : Database α) (ρ : Rows α) (rows : List (Row α)),
    page.select.uncut.Answers db ρ (.rows rows) →
      ∀ answer, page.count.Answers db ρ answer ↔ answer = .number rows.length
  paged : (∃ w ∈ r.window?, 0 < w.limit) → planned.asked = []
  unpaged : (∀ w ∈ r.window?, w.limit = 0) → planned.asked = [page.count]
  whole : (∀ w ∈ r.window?, w.limit = 0) → ∃ n, source.count page.count = .ok n ∧
    page.select.limit? = (if n = 0 then none else some n) ∧
    page.select.offset? = (if n = 0 then none else some 0) ∧
    ∀ {α : Type} (db : Database α) (ρ : Rows α), page.count.Answers db ρ (.number n.toNat) →
      ∀ answer, page.select.Answers db ρ answer ↔
        ∃ rows, answer = .rows rows ∧ rows.Perm (page.select.matching db ρ)

namespace Draft

variable (d : Draft) (limit number : UInt64) {α : Type} {db : Database α} {ρ : Rows α}

theorem answers_uncut_page (answer : Answer α) :
    (d.page limit number).select.uncut.Answers db ρ answer ↔
      ∃ rows, answer = .rows rows ∧ rows.Perm ((d.page limit number).select.matching db ρ) := by
  rw [Select.answers_uncut (d.projection_page limit number)]
  simp only [and_comm]

theorem answers_count_of_rows {rows : List (Row α)}
    (h : (d.page limit number).select.uncut.Answers db ρ (.rows rows)) (answer : Answer α) :
    d.countSelect.Answers db ρ answer ↔ answer = .number rows.length := by
  obtain ⟨_, hrows, hperm⟩ := (d.answers_uncut_page limit number _).mp h
  injection hrows with hrows
  subst hrows
  rw [Select.answers_number rfl rfl rfl, hperm.length_eq, d.matching_page]

theorem answers_page_of_count {n : UInt64} (h : d.countSelect.Answers db ρ (.number n.toNat))
    (answer : Answer α) : (d.page n 1).select.Answers db ρ answer ↔
      ∃ rows, answer = .rows rows ∧ rows.Perm ((d.page n 1).select.matching db ρ) := by
  have hcount : n.toNat = (d.countSelect.matching db ρ).length := by
    injection (Select.answers_number rfl rfl rfl).mp h
  have hcut {rows : List (Row α)} (hperm : rows.Perm ((d.page n 1).select.matching db ρ)) :
      (d.page n 1).select.cut rows = rows := by
    apply d.cut_page_one
    rw [hperm.length_eq, d.matching_page, hcount]
  rw [Select.answers_rows (d.projection_page n 1)]
  constructor
  · rintro ⟨rows, hperm, rfl⟩
    exact ⟨rows, congrArg Answer.rows (hcut hperm), hperm⟩
  · rintro ⟨rows, rfl, hperm⟩
    exact ⟨rows, hperm, congrArg Answer.rows (hcut hperm).symm⟩

end Draft

section Plan

variable {separator : Char} {source : Source} {table : String} {r : Request} {page : Page}

theorem plan_of_unpaged (h : (plan separator source table r).result = .ok page)
    (hunpaged : ∀ w ∈ r.window?, w.limit = 0) : ∃ (d : Draft) (n : UInt64),
      page = d.page n 1 ∧ source.count d.countSelect = .ok n ∧
        (plan separator source table r).asked = [d.countSelect] := by
  obtain ⟨hrun, -⟩ := plan_ok h rfl
  have hplan := plan_of_count hrun (Request.page?_eq_none.mpr hunpaged)
  rw [hplan] at h ⊢
  cases hn : source.count (outcome separator source table r).draft.countSelect with
  | error f =>
    rw [hn] at h
    cases h
  | ok n =>
    rw [hn] at h
    exact ⟨_, n, (Except.ok.inj h).symm, hn, rfl⟩

/-- A page that is planned counts what it shows, and the counter is asked for nothing else. -/
theorem plan_counts (h : (plan separator source table r).result = .ok page) :
    (plan separator source table r).Counts source r page := by
  obtain ⟨hrun, limit, number, hpage⟩ := plan_ok h rfl
  constructor
  case uncut =>
    intro α db ρ answer
    rw [hpage]
    exact Draft.answers_uncut_page _ limit number answer
  case total =>
    intro α db ρ rows hrows
    rw [hpage] at hrows ⊢
    exact Draft.answers_count_of_rows _ limit number hrows
  case paged =>
    rintro ⟨w, hmem, hpos⟩
    have hwindow : r.page? ≠ none := by
      intro hnone
      rw [Request.page?_eq_none.mp hnone w hmem] at hpos
      exact absurd hpos (by decide)
    obtain ⟨w', hw⟩ := Option.ne_none_iff_exists'.mp hwindow
    rw [plan_of_page hrun hw]
  case unpaged =>
    intro hunpaged
    obtain ⟨d, n, rfl, -, hasked⟩ := plan_of_unpaged h hunpaged
    exact hasked
  case whole =>
    intro hunpaged
    obtain ⟨d, n, rfl, hn, -⟩ := plan_of_unpaged h hunpaged
    have hzero {β : Type} (a b : β) : (if 0 < n then a else b) = if n = 0 then b else a := by
      by_cases h0 : n = 0
      · rw [h0]
        rfl
      · rw [if_neg h0, if_pos (UInt64.pos_iff_ne_zero.mpr h0)]
    refine ⟨n, hn, ?_, ?_, fun db ρ hcount ↦ ?_⟩
    · exact (d.limit?_page n 1).trans (hzero _ _)
    · exact (d.offset?_page_one n).trans (hzero _ _)
    · exact d.answers_page_of_count hcount

end Plan

def counting : Source := { blog with count := fun _ ↦ .ok 1 }

theorem plan_counts_search : ∃ page, (plan '|' counting "posts" search).result = .ok page ∧
    (plan '|' counting "posts" search).asked = [page.count] ∧
      page.select.limit? = some 1 ∧ page.select.offset? = some 0 ∧
        ∀ answer, page.select.Answers Database.flags (fun _ _ ↦ none) answer ↔
          answer = .rows [fun _ ↦ some true] := by
  obtain ⟨page, hpage⟩ : ∃ page, (plan '|' counting "posts" search).result = .ok page :=
    ⟨_, plan_ok_iff.mpr rfl⟩
  have hcounts := plan_counts hpage
  have hunpaged : ∀ w ∈ search.window?, w.limit = 0 := fun w hw ↦ absurd hw (Option.not_mem_none w)
  obtain ⟨n, hn, hlimit, hoffset, hwhole⟩ := hcounts.whole hunpaged
  obtain rfl : 1 = n := Except.ok.inj hn
  have hmatching : page.select.matching Database.flags (fun _ _ ↦ none) = [fun _ ↦ some true] := by
    obtain rfl := Except.ok.inj (plan_ok_iff.mp hpage)
    rfl
  have huncut := (hcounts.uncut Database.flags (fun _ _ ↦ none) _).mpr ⟨_, rfl, .refl _⟩
  have hcount := (hcounts.total Database.flags (fun _ _ ↦ none) _ huncut _).mpr rfl
  rw [hmatching] at hcount
  refine ⟨page, hpage, hcounts.unpaged hunpaged, hlimit, hoffset, fun answer ↦ ?_⟩
  rw [hwhole Database.flags (fun _ _ ↦ none) hcount, hmatching]
  simp only [List.perm_singleton, exists_eq_right]

end Listing
