import Listing.Proofs.Hops
import Listing.Proofs.Paths

namespace Listing

namespace Text

-- Below, whole tables are searched for mirrors, so runs are compared by their numbers.
instance : BEq CaseRun where
  beq a b := a.first.beq b.first && (a.last.beq b.last && (a.step.beq b.step && a.shift == b.shift))

instance : LawfulBEq CaseRun where
  eq_of_beq {a b} h := by
    cases a; cases b
    simpa [BEq.beq] using h
  rfl {a} := by simp [BEq.beq]

namespace CaseRun

def mirror (run : CaseRun) : CaseRun :=
  ⟨(run.first + run.shift).toNat, (run.last + run.shift).toNat, run.step, -run.shift⟩

def codes (run : CaseRun) : List Nat :=
  (List.range ((run.last - run.first) / run.step + 1)).map fun k ↦ run.first + k * run.step

structure IsSound (run : CaseRun) : Prop where
  positive : 0 < run.first + run.shift
  valid : run.last + run.shift < 0xD800 ∨
    0xDFFF < run.first + run.shift ∧ run.last + run.shift < 0x110000

instance (run : CaseRun) : Decidable run.IsSound :=
  decidable_of_iff (0 < run.first + run.shift ∧ (run.last + run.shift < 0xD800 ∨
      0xDFFF < run.first + run.shift ∧ run.last + run.shift < 0x110000))
    ⟨fun h ↦ ⟨h.1, h.2⟩, fun h ↦ ⟨h.positive, h.valid⟩⟩

variable {run : CaseRun} {n : Nat}

theorem Covers.mem_codes (h : run.Covers n) : n ∈ run.codes := by
  obtain ⟨hfirst, hlast, hstep⟩ := h
  have hsteps : (n - run.first) / run.step * run.step = n - run.first :=
    Nat.div_mul_cancel (Nat.dvd_of_mod_eq_zero hstep)
  refine List.mem_map.mpr ⟨(n - run.first) / run.step, List.mem_range.mpr ?_, ?_⟩
  · have hle : (n - run.first) / run.step ≤ (run.last - run.first) / run.step := by
      apply Nat.div_le_div_right
      omega
    omega
  · rw [hsteps]
    omega

theorem IsSound.covers_mirror (hrun : run.IsSound) (h : run.Covers n) :
    run.mirror.Covers (n + run.shift).toNat := by
  obtain ⟨hfirst, hlast, hstep⟩ := h
  have hpositive := hrun.positive
  refine ⟨?_, ?_, ?_⟩
  · simp only [mirror]
    omega
  · simp only [mirror]
    omega
  · have hsame : (n + run.shift).toNat - (run.first + run.shift).toNat = n - run.first := by omega
    simp only [mirror, hsame]
    exact hstep

theorem IsSound.toNat_ofNat (hrun : run.IsSound) (h : run.Covers n) :
    (Char.ofNat (n + run.shift).toNat).toNat = (n + run.shift).toNat := by
  obtain ⟨hfirst, hlast, -⟩ := h
  have hpositive := hrun.positive
  have hchar : (n + run.shift).toNat.isValidChar := by
    rcases hrun.valid with hlow | ⟨hlow, hhigh⟩
    · exact Or.inl (by omega)
    · exact Or.inr ⟨by omega, by omega⟩
  rw [Char.ofNat, dif_pos hchar]
  rfl

theorem IsSound.mirror_back (hrun : run.IsSound) (h : run.Covers n) :
    ((n + run.shift).toNat + run.mirror.shift).toNat = n := by
  obtain ⟨hfirst, -, -⟩ := h
  have hpositive := hrun.positive
  simp only [mirror]
  omega

end CaseRun

/-- Tables in which no character stands twice, and whose runs lead to characters. Only the first
run that does not end before a character can cover it. -/
structure Orderly (expansions : List (Nat × List Nat)) (runs : List CaseRun) : Prop where
  ascending : runs.IsChain fun run next ↦ run.last < next.first ∧ next.first ≤ next.last
  single : ∀ expansion ∈ expansions, ∀ run ∈ runs.find? (expansion.1 ≤ ·.last),
    ¬ run.Covers expansion.1
  sound : ∀ run ∈ runs, run.IsSound

theorem orderly_upper : Orderly upperExpansions upperRuns :=
  ⟨by decide +kernel, by decide +kernel, by decide +kernel⟩

theorem orderly_lower : Orderly lowerExpansions lowerRuns :=
  ⟨by decide +kernel, by decide +kernel, by decide +kernel⟩

section

variable {expansions : List (Nat × List Nat)} {runs : List CaseRun}

theorem Orderly.find?_eq (h : Orderly expansions runs) {run : CaseRun} (hrun : run ∈ runs) {n : Nat}
    (hn : run.Covers n) {p : CaseRun → Bool} (hp : p run = true)
    (hbefore : ∀ other : CaseRun, other.last < n → p other = false) :
    runs.find? p = some run := by
  have : IsTrans CaseRun fun run next ↦ run.last < next.first ∧ next.first ≤ next.last :=
    ⟨fun a b c hab hbc ↦ ⟨by omega, hbc.2⟩⟩
  have hascending := List.isChain_iff_pairwise.mp h.ascending
  obtain ⟨before, after, rfl⟩ := List.append_of_mem hrun
  refine List.find?_eq_some_iff_append.mpr ⟨hp, before, after, rfl, fun other hother ↦ ?_⟩
  have hends := (List.pairwise_append.mp hascending).2.2 other hother run List.mem_cons_self
  obtain ⟨hfirst, -, -⟩ := hn
  rw [hbefore other (by omega), Bool.not_false]

theorem Orderly.mapped_eq (h : Orderly expansions runs) {run : CaseRun} (hrun : run ∈ runs)
    {c : Char} (hc : run.Covers c.toNat) :
    mapped expansions runs c = [Char.ofNat (c.toNat + run.shift).toNat] := by
  have hlookup : expansions.lookup c.toNat = none := by
    rw [List.lookup_eq_none_iff]
    intro expansion hexpansion
    rw [bne_iff_ne]
    intro heq
    have hlast : runs.find? (expansion.1 ≤ ·.last) = some run := by
      apply h.find?_eq hrun hc
      · exact decide_eq_true (heq ▸ hc.2.1)
      · intro other hother
        exact decide_eq_false (by omega)
    exact h.single expansion hexpansion run hlast (heq ▸ hc)
  have hfind : runs.find? (fun run ↦ run.Covers c.toNat) = some run := by
    apply h.find?_eq hrun hc
    · exact decide_eq_true hc
    · intro other hother
      refine decide_eq_false fun hcovers ↦ ?_
      have hle := hcovers.2.1
      omega
  rw [mapped, hlookup]
  simp only [shifted, hfind]

theorem Orderly.mapped_mapped {expansions' : List (Nat × List Nat)} {runs' : List CaseRun}
    (h : Orderly expansions runs) (h' : Orderly expansions' runs') {run : CaseRun}
    (hrun : run ∈ runs) (hmirror : run.mirror ∈ runs') {c : Char} (hc : run.Covers c.toNat) :
    ∃ d, mapped expansions runs c = [d] ∧ mapped expansions' runs' d = [c] := by
  have hsound := h.sound run hrun
  have hcode := hsound.toNat_ofNat hc
  refine ⟨_, h.mapped_eq hrun hc, ?_⟩
  have hback : run.mirror.Covers (Char.ofNat (c.toNat + run.shift).toNat).toNat := by
    rw [hcode]
    exact hsound.covers_mirror hc
  rw [h'.mapped_eq hmirror hback, hcode, hsound.mirror_back hc, Char.ofNat_toNat]

end

def initial (c : Char) : List Char := onFirst lower (upper c)

theorem initial_eq {c u : Char} {small more : List Char} (hupper : upper c = u :: more)
    (hlower : lower u = small) : initial c = small ++ more := by
  rw [initial, hupper, onFirst, hlower]

def IsSteady (c : Char) : Prop := initial c = [c]

instance : DecidablePred IsSteady := fun c ↦ inferInstanceAs (Decidable (initial c = [c]))

/-- What a name begins with in place of `c` is left as it is from then on. -/
def Settles (c : Char) : Prop := ∀ d ∈ (initial c).head?, IsSteady d

instance : DecidablePred Settles := fun c ↦ Option.decidableForallMem (initial c).head?

def LeadsBack (code : Nat) : Prop := ∃ run ∈ lowerRuns, run.Covers code ∧ run.mirror ∈ upperRuns

instance : DecidablePred LeadsBack := fun code ↦
  inferInstanceAs (Decidable (∃ run ∈ lowerRuns, run.Covers code ∧ run.mirror ∈ upperRuns))

theorem settles_upperExpansions : ∀ expansion ∈ upperExpansions,
    (∃ code ∈ expansion.2.head?, LeadsBack (Char.ofNat code).toNat) ∨
      Settles (Char.ofNat expansion.1) := by decide +kernel

theorem settles_lowerExpansions : ∀ expansion ∈ lowerExpansions,
    Settles (Char.ofNat expansion.1) := by decide +kernel

theorem settles_upperRuns : ∀ run ∈ upperRuns, run.mirror ∈ lowerRuns ∨ ∀ n ∈ run.codes,
    LeadsBack (Char.ofNat (n + run.shift).toNat).toNat ∨ Settles (Char.ofNat n) := by decide +kernel

theorem settles_lowerRuns : ∀ run ∈ lowerRuns, run.mirror ∈ upperRuns ∨
    ∀ n ∈ run.codes, n = 'ẞ'.toNat ∨ (∃ expansion ∈ upperExpansions, expansion.1 = n) ∨
      (∃ other ∈ upperRuns, other.Covers n) ∨ Settles (Char.ofNat n) := by decide +kernel

theorem settles_of_leadsBack {c u : Char} {more : List Char} (hupper : upper c = u :: more)
    (hu : LeadsBack u.toNat) : Settles c := by
  obtain ⟨run, hrun, hcovers, hmirror⟩ := hu
  obtain ⟨small, hsmall, hback⟩ := orderly_lower.mapped_mapped orderly_upper hrun hmirror hcovers
  intro d hd
  rw [initial_eq hupper hsmall, List.singleton_append, List.head?_cons, Option.mem_some_iff] at hd
  subst hd
  exact initial_eq hback hsmall

theorem settles_of_steady {c : Char} (h : IsSteady c) : Settles c := by
  intro d hd
  rw [h, List.head?_cons, Option.mem_some_iff] at hd
  exact hd ▸ h

/-- The capital sharp s is the one letter that becomes another one, the small sharp s, of which
camel case makes two. -/
theorem settles_iff {c : Char} : Settles c ↔ c ≠ 'ẞ' := by
  constructor
  · rintro h rfl
    exact absurd h (by decide +kernel)
  intro hsharp
  rcases mapped_cases upperExpansions upperRuns c with
    ⟨codes, hcodes, hupper⟩ | ⟨run, hrun, hcovers, hupper⟩ | ⟨hexpansions, huncovered, hupper⟩
  · -- Several letters stand for the capital.
    rcases settles_upperExpansions _ hcodes with ⟨code, hcode, hback⟩ | hsettles
    · obtain ⟨more, rfl⟩ := List.head?_eq_some_iff.mp hcode
      exact settles_of_leadsBack hupper hback
    · rwa [Char.ofNat_toNat] at hsettles
  · -- The capital is one other letter.
    rcases settles_upperRuns run hrun with hmirror | hcodes
    · obtain ⟨capital, hcapital, hback⟩ :=
        orderly_upper.mapped_mapped orderly_lower hrun hmirror hcovers
      apply settles_of_steady
      exact initial_eq hcapital hback
    · rcases hcodes _ hcovers.mem_codes with hback | hsettles
      · exact settles_of_leadsBack hupper hback
      · rwa [Char.ofNat_toNat] at hsettles
  · -- The letter is a capital, or has none.
    rcases mapped_cases lowerExpansions lowerRuns c with
      ⟨codes, hcodes, -⟩ | ⟨run, hrun, hcovers, -⟩ | ⟨-, -, hlower⟩
    · have hsettles := settles_lowerExpansions _ hcodes
      rwa [Char.ofNat_toNat] at hsettles
    · rcases settles_lowerRuns run hrun with hmirror | hcodes
      · exact settles_of_leadsBack hupper ⟨run, hrun, hcovers, hmirror⟩
      · rcases hcodes _ hcovers.mem_codes with heq | hexpansion | hcovered | hsettles
        · exact absurd (Char.toNat_inj.mp heq) hsharp
        · obtain ⟨expansion, hmem, heq⟩ := hexpansion
          exact absurd heq (hexpansions expansion hmem)
        · obtain ⟨other, hother, hcode⟩ := hcovered
          exact absurd hcode (huncovered other hother)
        · rwa [Char.ofNat_toNat] at hsettles
    · apply settles_of_steady
      exact initial_eq hupper hlower

theorem mapped_ne_nil {expansions : List (Nat × List Nat)} (runs : List CaseRun)
    (h : ∀ expansion ∈ expansions, expansion.2 ≠ []) (c : Char) :
    mapped expansions runs c ≠ [] := by
  rcases mapped_cases expansions runs c with
    ⟨codes, hcodes, heq⟩ | ⟨run, -, -, heq⟩ | ⟨-, -, heq⟩
  · rw [heq]
    exact mt List.map_eq_nil_iff.mp (h _ hcodes)
  · rw [heq]
    exact List.cons_ne_nil _ _
  · rw [heq]
    exact List.cons_ne_nil _ _

theorem upper_ne_nil (c : Char) : upper c ≠ [] := mapped_ne_nil upperRuns (by decide) c

theorem lower_ne_nil (c : Char) : lower c ≠ [] := mapped_ne_nil lowerRuns (by decide) c

theorem onFirst_append (f : Char → List Char) {l : List Char} (h : l ≠ []) (more : List Char) :
    onFirst f (l ++ more) = onFirst f l ++ more := by
  cases l with
  | nil => exact absurd rfl h
  | cons c l => exact (List.append_assoc _ _ _).symm

def firstLetter? (name : String) : Option Char := name.toList.find? (· ≠ '_')

theorem flatMap_splitOn_cases (l : List Char) :
    (l.find? (· ≠ '_') = none ∧ (l.splitOn '_').flatMap (onFirst upper) = []) ∨
      ∃ c more, l.find? (· ≠ '_') = some c ∧
        (l.splitOn '_').flatMap (onFirst upper) = upper c ++ more := by
  induction l with
  | nil => exact Or.inl ⟨rfl, rfl⟩
  | cons c l ih =>
    rw [List.splitOn_cons_eq_if_modifyHead]
    by_cases hc : c = '_'
    · subst hc
      exact ih
    · obtain ⟨word, words, hwords⟩ := List.exists_cons_of_ne_nil (List.splitOn_ne_nil '_' l)
      refine Or.inr ⟨c, word ++ words.flatMap (onFirst upper), ?_, ?_⟩
      · exact List.find?_cons_of_pos (decide_eq_true hc)
      · rw [if_neg (by simpa using hc), hwords, List.modifyHead_cons, List.flatMap_cons, onFirst,
          List.append_assoc]

theorem camel_cases (name : String) : (firstLetter? name = none ∧ (camel name).toList = []) ∨
    ∃ c more, firstLetter? name = some c ∧ (camel name).toList = initial c ++ more := by
  rw [firstLetter?, camel, String.toList_ofList]
  rcases flatMap_splitOn_cases name.toList with ⟨hnone, hwords⟩ | ⟨c, more, hc, hwords⟩
  · exact Or.inl ⟨hnone, by rw [hwords]; rfl⟩
  · refine Or.inr ⟨c, more, hc, ?_⟩
    rw [hwords, onFirst_append lower (upper_ne_nil c), initial]

theorem toList_camel_of_not_mem {name : String} (h : '_' ∉ name.toList) :
    (camel name).toList = onFirst initial name.toList := by
  rw [camel, String.toList_ofList, List.splitOn_eq_singleton h, List.flatMap_singleton]
  cases name.toList with
  | nil => rfl
  | cons c more => exact onFirst_append lower (upper_ne_nil c) more

theorem firstLetter?_of_not_mem {name : String} (h : '_' ∉ name.toList) :
    firstLetter? name = name.toList.head? := by
  rw [firstLetter?]
  cases hname : name.toList with
  | nil => rfl
  | cons c more =>
    rw [hname, List.mem_cons, not_or] at h
    exact List.find?_cons_of_pos (decide_eq_true (Ne.symm h.1))

theorem exists_initial_eq (c : Char) : ∃ first more, initial c = first :: more ∧ first ≠ 'ẞ' := by
  obtain ⟨u, later, hupper⟩ := List.exists_cons_of_ne_nil (upper_ne_nil c)
  obtain ⟨first, more, hlower⟩ := List.exists_cons_of_ne_nil (lower_ne_nil u)
  refine ⟨first, more ++ later, initial_eq hupper hlower, ?_⟩
  rintro rfl
  have hunreached : Unreached lowerExpansions lowerRuns 'ẞ' :=
    ⟨by decide, by decide +kernel, by decide +kernel⟩
  have hmem : 'ẞ' ∈ lower u := hlower ▸ List.mem_cons_self
  obtain rfl : u = 'ẞ' := hunreached.eq_of_mem hmem
  exact absurd hmem (by decide +kernel)

theorem camel_camel_eq_iff_settles (name : String) :
    camel (camel name) = camel name ↔ ∀ c ∈ firstLetter? name, Settles c := by
  rw [← String.toList_inj, toList_camel_of_not_mem (not_underscore_mem_camel name)]
  rcases camel_cases name with ⟨hnone, hnil⟩ | ⟨c, more, hc, htext⟩
  · simp [hnone, hnil, onFirst]
  · obtain ⟨first, rest, hinitial, -⟩ := exists_initial_eq c
    have hsettles : Settles c ↔ IsSteady first := by simp [Settles, hinitial]
    have hkept : initial first ++ (rest ++ more) = first :: (rest ++ more) ↔ IsSteady first := by
      rw [← List.singleton_append, List.append_left_inj, IsSteady]
    rw [htext, hinitial, List.cons_append, onFirst, hkept, ← hsettles, hc]
    simp

theorem camel_camel_eq_iff (name : String) :
    camel (camel name) = camel name ↔ firstLetter? name ≠ some 'ẞ' := by
  rw [camel_camel_eq_iff_settles]
  constructor
  · intro h hsharp
    exact settles_iff.mp (h 'ẞ' hsharp) rfl
  · intro h c hc
    exact settles_iff.mpr fun hsharp ↦ h (hsharp ▸ hc)

theorem firstLetter?_camel_ne (name : String) : firstLetter? (camel name) ≠ some 'ẞ' := by
  rw [firstLetter?_of_not_mem (not_underscore_mem_camel name)]
  rcases camel_cases name with ⟨-, hnil⟩ | ⟨c, more, -, htext⟩
  · rw [hnil]
    exact fun h ↦ absurd h.symm (Option.some_ne_none 'ẞ')
  · obtain ⟨first, rest, hinitial, hfirst⟩ := exists_initial_eq c
    rw [htext, hinitial, List.cons_append, List.head?_cons]
    exact fun h ↦ hfirst (Option.some.inj h)

/-- Camel case leaves a name in camel case as it is, and with it the relation of that name, but
for one letter at its beginning. From the second time on it leaves all names. -/
theorem camel_camel_iff (name : String) :
    (camel (camel name) = camel name ↔ firstLetter? name ≠ some 'ẞ') ∧
    ((∀ (schema : Schema) (owner : String),
        schema.relation? owner (camel (camel name)) = schema.relation? owner (camel name)) ↔
      firstLetter? name ≠ some 'ẞ') ∧
    camel (camel (camel name)) = camel (camel name) := by
  have hiff := camel_camel_eq_iff name
  refine ⟨hiff, ⟨fun h ↦ hiff.mp ?_, fun h schema owner ↦ ?_⟩, ?_⟩
  · -- A schema with no other relation tells the two names apart.
    have hkept : Schema.relation? ⟨[⟨"", camel name, "", "", ""⟩]⟩ "" (camel name) =
        some ⟨"", camel name, "", "", ""⟩ := by simp [Schema.relation?]
    have hfound := (h _ _).trans hkept
    obtain ⟨-, -, hname⟩ := Schema.relation?_eq_some.mp hfound
    exact hname.symm
  · rw [hiff.mpr h]
  · rw [camel_camel_eq_iff]
    exact firstLetter?_camel_ne name

/-- The small sharp s that stands for a capital one is written in two letters the next time. -/
theorem capital_sharp_changes : camel "ẞ" = "ß" ∧ camel "ß" = "sS" ∧
    camel (camel "ẞ") ≠ camel "ẞ" := by decide +kernel

end Text

end Listing
