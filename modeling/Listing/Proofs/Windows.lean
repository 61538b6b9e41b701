import Listing.Proofs.Answers
import Listing.Proofs.Counting
import Listing.Proofs.Meaning

namespace Listing

open Sql

theorem take_drop_zipIdx {β : Type} (l : List β) (k a b : ℕ) :
    ((l.zipIdx k).drop a).take b =
      (l.zipIdx k).filter fun row ↦ k + a ≤ row.2 ∧ row.2 < k + a + b := by
  induction l generalizing k a b with
  | nil => rw [List.zipIdx_nil, List.drop_nil, List.take_nil, List.filter_nil]
  | cons x l ih =>
    have hlater : ∀ row ∈ l.zipIdx (k + 1), k + 1 ≤ row.2 := fun row hrow ↦
      List.le_snd_of_mem_zipIdx hrow
    rw [List.zipIdx_cons]
    cases a with
    | zero =>
      cases b with
      | zero =>
        rw [List.take_zero]
        symm
        apply List.filter_eq_nil_iff.mpr
        intro row _ hrow
        simp only [decide_eq_true_eq] at hrow
        omega
      | succ b =>
        have hih := ih (k + 1) 0 b
        rw [List.drop_zero] at hih ⊢
        rw [List.take_succ_cons, hih, List.filter_cons_of_pos (by simp)]
        congr 1
        apply List.filter_congr
        intro row hrow
        have hk := hlater row hrow
        simp only [decide_eq_decide]
        omega
    | succ a =>
      rw [List.drop_succ_cons, ih, List.filter_cons_of_neg (by simp)]
      apply List.filter_congr
      intro row _
      simp only [decide_eq_decide]
      omega

namespace Window

theorem toNat_offset (w : Window) :
    w.offset.toNat = min (w.page.toNat * w.limit.toNat) (UInt64.size - 1) := by
  unfold offset UInt64.ofNatClamp
  split
  · rw [UInt64.toNat_ofNatLT]
    omega
  · rw [UInt64.toNat_ofNatLT]
    omega

end Window

namespace Sql.Select

/-- The query shows the rows of one page. Pages of `limit` rows count from 1, and page 0 is the
first as well. The offset is that of the page, or the largest word if it is not a word. -/
structure Shows (s : Select) (limit page : UInt64) : Prop where
  limit? : s.limit? = some limit
  offset? : ∃ offset ∈ s.offset?,
    offset.toNat = min ((max page.toNat 1 - 1) * limit.toNat) (UInt64.size - 1)
  cut : ∀ {β : Type} (rows : List β), rows.length < UInt64.size →
    s.cut rows.zipIdx =
      rows.zipIdx.filter fun row ↦ row.2 / limit.toNat = max page.toNat 1 - 1

theorem shows_of_offset {s : Select} {limit page offset : UInt64} (hpos : 1 ≤ limit)
    (hlimit : s.limit? = some limit) (hoffset : s.offset? = some offset)
    (hvalue : offset.toNat = min ((max page.toNat 1 - 1) * limit.toNat) (UInt64.size - 1)) :
    s.Shows limit page where
  limit? := hlimit
  offset? := ⟨offset, hoffset, hvalue⟩
  cut := by
    intro β rows hrows
    have hlimitpos : 0 < limit.toNat := UInt64.le_iff_toNat_le.mp hpos
    simp only [Select.cut, hlimit, hoffset, Option.elim_some, take_drop_zipIdx]
    apply List.filter_congr
    intro row hrow
    have hindex : row.2 < rows.length := by
      have h := List.snd_lt_add_of_mem_zipIdx hrow
      omega
    rw [decide_eq_decide, Nat.div_eq_iff hlimitpos, hvalue]
    generalize (max page.toNat 1 - 1) * limit.toNat = start
    omega

end Sql.Select

namespace Draft

variable (d : Draft) {limit : UInt64}

theorem shows_page (hlimit : 1 ≤ limit) (page : UInt64) :
    (d.page limit page).select.Shows limit page := by
  have hpos : 0 < limit := UInt64.lt_iff_toNat_lt.mpr (UInt64.le_iff_toNat_le.mp hlimit)
  have hselect : (d.page limit page).select = { d.rowsSelect with
      limit? := some limit
      offset? := some (Window.offset ⟨max page 1 - 1, limit⟩) } := by
    simp only [Draft.page, hpos, if_true]
  have hnumber : (max page 1 - 1).toNat = max page.toNat 1 - 1 := by
    have hone : (1 : UInt64) ≤ max page 1 := by
      rw [UInt64.le_iff_toNat_le, UInt64.toNat_max]
      exact Nat.le_max_right _ _
    rw [UInt64.toNat_sub_of_le _ _ hone, UInt64.toNat_max]
    rfl
  apply Select.shows_of_offset hlimit (by rw [hselect]) (by rw [hselect])
  rw [Window.toNat_offset, hnumber]

theorem exists_unique_page (hlimit : 1 ≤ limit) {β : Type} {rows : List β}
    (hrows : rows.length < UInt64.size) {row : β × ℕ} (hrow : row ∈ rows.zipIdx) :
    ∃! page, 1 ≤ page ∧ row ∈ (d.page limit page).select.cut rows.zipIdx := by
  have hmem (page : UInt64) : row ∈ (d.page limit page).select.cut rows.zipIdx ↔
      row.2 / limit.toNat = max page.toNat 1 - 1 := by
    rw [(d.shows_page hlimit page).cut rows hrows, List.mem_filter, decide_eq_true_eq,
      and_iff_right hrow]
  have hindex : row.2 / limit.toNat + 1 < UInt64.size := by
    have hlt := List.snd_lt_add_of_mem_zipIdx hrow
    calc row.2 / limit.toNat + 1 ≤ row.2 + 1 := Nat.succ_le_succ (Nat.div_le_self _ _)
      _ < UInt64.size := by omega
  have hnumber : (UInt64.ofNat (row.2 / limit.toNat + 1)).toNat = row.2 / limit.toNat + 1 :=
    UInt64.toNat_ofNat_of_lt hindex
  refine ⟨UInt64.ofNat (row.2 / limit.toNat + 1), ⟨?_, ?_⟩, ?_⟩
  · rw [UInt64.le_iff_toNat_le, hnumber]
    exact Nat.le_add_left 1 _
  · rw [hmem, hnumber, Nat.max_eq_left (Nat.le_add_left 1 _), Nat.add_sub_cancel]
  · rintro page ⟨hpage, hshown⟩
    have hone : 1 ≤ page.toNat := UInt64.le_iff_toNat_le.mp hpage
    rw [hmem] at hshown
    apply UInt64.toNat_inj.mp
    rw [hnumber, hshown]
    omega

theorem page_zero (limit : UInt64) : d.page limit 0 = d.page limit 1 := rfl

end Draft

/-- The pages of any limit part a result whose length is a word: a page shows the rows whose index
divided by the limit is one less than its number, and no row is on two pages. What a draft was
given as limit and offset has no part in it, and a request that asks for a page gets this one. -/
theorem pages_partition {limit : UInt64} (hlimit : 1 ≤ limit) :
    (∀ (d : Draft) (page : UInt64), (d.page limit page).select.Shows limit page) ∧
      (∀ (d : Draft) {β : Type} (rows : List β), rows.length < UInt64.size →
        ∀ row ∈ rows.zipIdx,
          ∃! page, 1 ≤ page ∧ row ∈ (d.page limit page).select.cut rows.zipIdx) ∧
      (∀ d : Draft, d.page limit 0 = d.page limit 1) ∧
      ∀ (separator : Char) (source : Source) (table : String) (r : Request) (page : UInt64)
        (p : Page), r.window? = some ⟨page, limit⟩ →
        (plan separator source table r).result = .ok p →
          p.select.Shows limit page ∧ p.perPage = limit ∧ p.number = max page 1 := by
  refine ⟨fun d page ↦ d.shows_page hlimit page, ?_, fun d ↦ d.page_zero limit, ?_⟩
  · intro d β rows hrows row hrow
    exact d.exists_unique_page hlimit hrows hrow
  · intro separator source table r page p hwindow hplan
    have hpage : r.page? = some ⟨page, limit⟩ := by
      have hpos : 0 < limit := UInt64.lt_iff_toNat_lt.mpr (UInt64.le_iff_toNat_le.mp hlimit)
      rw [Request.page?, hwindow, Option.filter_some, if_pos (decide_eq_true hpos)]
    cases hrun : (outcome separator source table r).failure? with
    | some f =>
      rw [plan_of_failure hrun] at hplan
      cases hplan
    | none =>
      rw [plan_of_page hrun hpage] at hplan
      obtain rfl := Except.ok.inj hplan
      exact ⟨Draft.shows_page _ hlimit page, rfl, rfl⟩

def late : Request := { search with window? := some ⟨0x8000000000000001, 2⟩ }

theorem pages_partition_late :
    (1 : UInt64) ≤ 2 ∧ (2 ^ 63 : ℕ) * 2 = UInt64.size ∧
      (∃ p, (plan '|' blog "posts" late).result = .ok p ∧
        p.select.Shows 2 0x8000000000000001 ∧ p.select.offset? = some 0xFFFFFFFFFFFFFFFF) ∧
      ∀ d : Draft, ∃! page, 1 ≤ page ∧
        ("c", 2) ∈ (d.page 2 page).select.cut ["a", "b", "c"].zipIdx := by
  have hlimit : (1 : UInt64) ≤ 2 := by decide
  obtain ⟨-, honce, -, hplan⟩ := pages_partition hlimit
  refine ⟨hlimit, by decide, ?_, fun d ↦ ?_⟩
  · obtain ⟨p, hp⟩ : ∃ p, (plan '|' blog "posts" late).result = .ok p :=
    ⟨_, plan_ok_iff.mpr rfl⟩
    obtain ⟨hshows, -, -⟩ := hplan '|' blog "posts" late _ p rfl hp
    refine ⟨p, hp, hshows, ?_⟩
    obtain ⟨offset, hoffset, hvalue⟩ := hshows.offset?
    rw [hoffset]
    exact congrArg some (UInt64.toNat_inj.mp hvalue)
  · exact honce d ["a", "b", "c"] (by decide) ("c", 2) (by decide)

end Listing
