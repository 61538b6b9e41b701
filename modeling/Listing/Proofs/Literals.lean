import Listing.Proofs.Segments
import Mathlib.Algebra.Ring.Int.Defs

namespace Listing.Sql

def IsDigits (s : List Char) : Prop := s ≠ [] ∧ ∀ c ∈ s, '0' ≤ c ∧ c ≤ '9'

def IsWhole (s : List Char) : Prop := s = ['0'] ∨ IsDigits s ∧ s.head? ≠ some '0'

def minus (negative : Bool) : List Char := if negative then ['-'] else []

def signed (negative : Bool) (digits : List Char) : Int :=
  if negative then -Nat.ofDigitChars 10 digits 0 else Nat.ofDigitChars 10 digits 0

/-- The literals that denote more than their text: the truth values, the whole numbers that are
signed words of 64 bits, and the decimal numbers. -/
inductive Spells : String → Value → Prop
  | yes : Spells "true" (.bool true)
  | no : Spells "false" (.bool false)
  | whole {negative : Bool} {digits : List Char} : IsWhole digits →
      -2 ^ 63 ≤ signed negative digits → signed negative digits ≤ 2 ^ 63 - 1 →
      Spells (.ofList (minus negative ++ digits)) (.bigInt (.ofInt (signed negative digits)))
  | decimal {negative : Bool} {whole fraction : List Char} : IsWhole whole → IsDigits fraction →
      Spells (.ofList (minus negative ++ (whole ++ '.' :: fraction)))
        (.double (.ofDigits negative whole fraction))

theorem isDigits_iff {s : List Char} : Value.isDigits s = true ↔ IsDigits s := by
  rw [Value.isDigits, Bool.and_eq_true, Bool.not_eq_true', List.isEmpty_eq_false_iff,
    List.all_eq_true, IsDigits]
  simp only [Char.isDigit, Bool.and_eq_true, decide_eq_true_eq, Char.le_def, ge_iff_le]

theorem isNumber_iff {s : List Char} : Value.isNumber s = true ↔ IsWhole s := by
  rw [Value.isNumber, Bool.and_eq_true, Bool.or_eq_true, decide_eq_true_eq, decide_eq_true_eq,
    isDigits_iff, IsWhole]
  constructor
  · rintro ⟨hdigits, hzero | hhead⟩
    · exact .inl hzero
    · exact .inr ⟨hdigits, hhead⟩
  · rintro (rfl | ⟨hdigits, hhead⟩)
    · exact ⟨isDigits_iff.mp rfl, .inl rfl⟩
    · exact ⟨hdigits, .inr hhead⟩

theorem IsWhole.isDigits {s : List Char} (h : IsWhole s) : IsDigits s := by
  rcases h with rfl | ⟨hdigits, -⟩
  · exact isDigits_iff.mp rfl
  · exact hdigits

theorem IsDigits.not_mem {s : List Char} (h : IsDigits s) : '.' ∉ s := by
  intro hmem
  exact absurd (h.2 '.' hmem) (by decide)

theorem IsDigits.exists_cons {s : List Char} (h : IsDigits s) :
    ∃ c more, s = c :: more ∧ '0' ≤ c ∧ c ≤ '9' := by
  obtain ⟨c, more, rfl⟩ := List.exists_cons_of_ne_nil h.1
  exact ⟨c, more, rfl, h.2 c List.mem_cons_self⟩

theorem exists_digit {c : Char} (h : '0' ≤ c ∧ c ≤ '9') :
    ∃ d, d < 10 ∧ d.digitChar = c ∧ c.toNat - '0'.toNat = d := by
  have hlow : 48 ≤ c.toNat := h.1
  have hhigh : c.toNat ≤ 57 := h.2
  have hd : c.toNat - 48 < 10 := by omega
  refine ⟨c.toNat - 48, hd, ?_, rfl⟩
  apply Char.toNat_inj.mp
  rw [Nat.toNat_digitChar_of_lt_ten hd]
  omega

theorem toDigits_append {s : List Char} (h : ∀ c ∈ s, '0' ≤ c ∧ c ≤ '9') {n : Nat} (hn : 0 < n) :
    Nat.toDigits 10 n ++ s = Nat.toDigits 10 (Nat.ofDigitChars 10 s n) := by
  induction s generalizing n with
  | nil => rw [Nat.ofDigitChars_nil, List.append_nil]
  | cons c more ih =>
    obtain ⟨d, hd, rfl, hvalue⟩ := exists_digit (h c List.mem_cons_self)
    have hnext : 0 < 10 * n + d := by omega
    rw [Nat.ofDigitChars_cons, hvalue, ← ih (fun c hc ↦ h c (List.mem_cons_of_mem _ hc)) hnext,
      ← Nat.toDigits_append_toDigits (by decide) hn hd, Nat.toDigits_of_lt_base hd,
      List.append_assoc, List.singleton_append]

theorem IsWhole.toDigits {s : List Char} (h : IsWhole s) :
    Nat.toDigits 10 (Nat.ofDigitChars 10 s 0) = s := by
  rcases h with rfl | ⟨⟨hne, hdigits⟩, hhead⟩
  · rfl
  obtain ⟨c, more, rfl⟩ := List.exists_cons_of_ne_nil hne
  obtain ⟨d, hd, rfl, hvalue⟩ := exists_digit (hdigits c List.mem_cons_self)
  have hpos : 0 < d := by
    apply Nat.pos_of_ne_zero
    rintro rfl
    exact hhead rfl
  rw [Nat.ofDigitChars_cons, hvalue, Nat.mul_zero, Nat.zero_add,
    ← toDigits_append (fun c hc ↦ hdigits c (List.mem_cons_of_mem _ hc)) hpos,
    Nat.toDigits_of_lt_base hd, List.singleton_append]

theorem toString_signed {negative : Bool} {digits : List Char} (h : IsWhole digits)
    (hzero : String.ofList (minus negative ++ digits) ≠ "-0") :
    toString (signed negative digits) = String.ofList (minus negative ++ digits) := by
  have hdigits := h.toDigits
  apply String.toList_inj.mp
  rw [String.toList_ofList, Int.toString_eq_repr, Int.repr_eq_if]
  cases negative with
  | false =>
    rw [signed, if_neg Bool.false_ne_true, if_pos (Int.natCast_nonneg _), Int.toNat_natCast,
      Nat.toList_repr, hdigits]
    rfl
  | true =>
    have hpos : 0 < Nat.ofDigitChars 10 digits 0 := by
      apply Nat.pos_of_ne_zero
      intro hvalue
      rw [hvalue, Nat.toDigits_zero] at hdigits
      rw [← hdigits] at hzero
      exact hzero rfl
    rw [signed, if_pos rfl, if_neg (by omega), Int.neg_neg, Int.toNat_natCast,
      String.toList_append, Nat.toList_repr, hdigits]
    rfl

namespace Value

theorem bigInt?_eq {negative : Bool} {digits : List Char}
    (hlow : -2 ^ 63 ≤ signed negative digits) (hhigh : signed negative digits ≤ 2 ^ 63 - 1) :
    bigInt? negative digits = some (.bigInt (.ofInt (signed negative digits))) :=
  if_pos ⟨hlow, hhigh⟩

theorem numeric?_whole {digits : List Char} (h : IsWhole digits) (negative : Bool) :
    numeric? negative digits = bigInt? negative digits := by
  rw [numeric?, Text.cut?_eq_none h.isDigits.not_mem]
  exact if_pos (isNumber_iff.mpr h)

theorem numeric?_decimal {whole fraction : List Char} (hwhole : IsWhole whole)
    (hfraction : IsDigits fraction) (negative : Bool) :
    numeric? negative (whole ++ '.' :: fraction) =
      some (.double (.ofDigits negative whole fraction)) := by
  rw [numeric?, Text.cut?_append hwhole.isDigits.not_mem]
  apply if_pos
  rw [Bool.and_eq_true]
  exact ⟨isNumber_iff.mpr hwhole, isDigits_iff.mpr hfraction⟩

theorem spells_of_numeric? {negative : Bool} {l : List Char} {v : Value}
    (h : numeric? negative l = some v) : Spells (.ofList (minus negative ++ l)) v := by
  by_cases hmem : '.' ∈ l
  · obtain ⟨whole, fraction, rfl, hdot⟩ := List.eq_append_cons_of_mem hmem
    rw [numeric?, Text.cut?_append hdot] at h
    obtain ⟨hnumber, hv⟩ := Option.ite_none_right_eq_some.mp h
    obtain rfl := Option.some.inj hv
    rw [Bool.and_eq_true] at hnumber
    exact .decimal (isNumber_iff.mp hnumber.1) (isDigits_iff.mp hnumber.2)
  · rw [numeric?, Text.cut?_eq_none hmem] at h
    obtain ⟨hnumber, hword⟩ := Option.ite_none_right_eq_some.mp h
    obtain ⟨⟨hlow, hhigh⟩, hv⟩ := Option.ite_none_right_eq_some.mp hword
    obtain rfl := Option.some.inj hv
    exact .whole (isNumber_iff.mp hnumber) hlow hhigh

theorem minus_append_ne (negative : Bool) {c d : Char} (hc : '0' ≤ c ∧ c ≤ '9') (hd : '9' < d)
    (more l : List Char) : minus negative ++ c :: more ≠ d :: l := by
  intro h
  cases negative with
  | false =>
    obtain ⟨rfl, -⟩ := List.cons.inj h
    exact absurd hc.2 (Char.not_le.mpr hd)
  | true =>
    obtain ⟨rfl, -⟩ := List.cons.inj h
    exact absurd hd (by decide)

theorem ofLiteral_signed (negative : Bool) {c : Char} (hc : '0' ≤ c ∧ c ≤ '9') (more : List Char) :
    ofLiteral (.ofList (minus negative ++ c :: more)) =
      (numeric? negative (c :: more)).getD (.text (.ofList (minus negative ++ c :: more))) := by
  have htrue : String.ofList (minus negative ++ c :: more) ≠ "true" := by
    intro h
    refine minus_append_ne negative hc ?_ more _ (String.ofList_inj.mp h)
    decide
  have hfalse : String.ofList (minus negative ++ c :: more) ≠ "false" := by
    intro h
    refine minus_append_ne negative hc ?_ more _ (String.ofList_inj.mp h)
    decide
  rw [ofLiteral, if_neg htrue, if_neg hfalse, String.toList_ofList]
  cases negative with
  | true => rfl
  | false =>
    split
    case h_1 digits hminus =>
      obtain ⟨rfl, -⟩ := List.cons.inj hminus
      exact absurd hc.1 (by decide)
    case h_2 => rfl

theorem spells_getD {raw : String} (negative : Bool) {l : List Char}
    (hraw : raw.toList = minus negative ++ l) :
    Spells raw ((numeric? negative l).getD (.text raw)) ∨
      (numeric? negative l).getD (.text raw) = .text raw := by
  cases h : numeric? negative l with
  | none => exact .inr rfl
  | some v =>
    have hspells := spells_of_numeric? h
    rw [← hraw, String.ofList_toList] at hspells
    exact .inl hspells

theorem spells_ofLiteral (raw : String) :
    Spells raw (ofLiteral raw) ∨ ofLiteral raw = .text raw := by
  by_cases htrue : raw = "true"
  · subst htrue
    exact .inl .yes
  by_cases hfalse : raw = "false"
  · subst hfalse
    exact .inl .no
  rw [ofLiteral, if_neg htrue, if_neg hfalse]
  split
  case h_1 hraw => exact spells_getD true hraw
  case h_2 digits hraw => exact spells_getD false rfl

end Value

theorem Spells.ofLiteral_eq {raw : String} {v : Value} (h : Spells raw v) :
    Value.ofLiteral raw = v := by
  cases h with
  | yes => rfl
  | no => rfl
  | @whole negative digits hdigits hlow hhigh =>
    obtain ⟨c, more, rfl, hc⟩ := hdigits.isDigits.exists_cons
    rw [Value.ofLiteral_signed negative hc, Value.numeric?_whole hdigits,
      Value.bigInt?_eq hlow hhigh, Option.getD_some]
  | @decimal negative whole fraction hwhole hfraction =>
    obtain ⟨c, more, rfl, hc⟩ := hwhole.isDigits.exists_cons
    rw [List.cons_append, Value.ofLiteral_signed negative hc, ← List.cons_append,
      Value.numeric?_decimal hwhole hfraction, Option.getD_some]

/-- A literal has the type that it is spelt with, and it is text if it is spelt as nothing else.
Whole numbers are written back as they came, but for the zero with a sign. -/
theorem Value.literal_typed (raw : String) :
    (∀ v, ofLiteral raw = v ↔ Spells raw v ∨ v = .text raw ∧ ∀ w, ¬ Spells raw w) ∧
    ∀ n, ofLiteral raw = .bigInt n → raw ≠ "-0" → toString n.toInt = raw := by
  refine ⟨fun v ↦ ⟨?typed, ?spelt⟩, ?written⟩
  case typed =>
    rintro rfl
    rcases spells_ofLiteral raw with hspells | htext
    · exact .inl hspells
    · by_cases hsome : ∃ w, Spells raw w
      · obtain ⟨w, hw⟩ := hsome
        rw [hw.ofLiteral_eq]
        exact .inl hw
      · exact .inr ⟨htext, not_exists.mp hsome⟩
  case spelt =>
    rintro (hspells | ⟨rfl, hnone⟩)
    · exact hspells.ofLiteral_eq
    · exact (spells_ofLiteral raw).resolve_left (hnone _)
  case written =>
    intro n hn hzero
    rcases spells_ofLiteral raw with hspells | htext
    · rw [hn] at hspells
      cases hspells with
      | @whole negative digits hdigits hlow hhigh =>
        rw [Int64.toInt_ofInt_of_le hlow (Int.lt_of_le_sub_one hhigh), toString_signed hdigits hzero]
    · rw [hn] at htext
      cases htext

example : Value.ofLiteral "-9223372036854775808" = .bigInt Int64.minValue := by decide

example : Value.ofLiteral "9223372036854775808" = .text "9223372036854775808" := by decide

end Listing.Sql
