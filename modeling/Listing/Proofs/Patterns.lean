import Listing.Draft
import Listing.Proofs.Readings
import Mathlib.Data.List.Infix

namespace Listing

open Sql

namespace Sql

/-- The reading of a pattern: `%` is any run of characters, `_` any one of them, and a backslash
takes the next character as it is. -/
inductive Like : List Char → List Char → Prop
  | nil : Like [] []
  | run (skipped : List Char) {pattern text : List Char} :
      Like pattern text → Like ('%' :: pattern) (skipped ++ text)
  | one (c : Char) {pattern text : List Char} :
      Like pattern text → Like ('_' :: pattern) (c :: text)
  | taken (c : Char) {pattern text : List Char} :
      Like pattern text → Like ('\\' :: c :: pattern) (c :: text)
  | letter {c : Char} {pattern text : List Char} :
      c ∉ ['%', '_', '\\'] → Like pattern text → Like (c :: pattern) (c :: text)

/-- No sign of the text has a meaning in patterns. -/
def IsPlain (text : List Char) : Prop := ∀ c ∈ text, c ∉ ['%', '_', '\\']

instance (text : List Char) : Decidable (IsPlain text) :=
  List.decidableBAll (· ∉ ['%', '_', '\\']) text

inductive Closed : List Char → Prop
  | nil : Closed []
  | taken (c : Char) {pattern : List Char} : Closed pattern → Closed ('\\' :: c :: pattern)
  | other {c : Char} {pattern : List Char} : c ≠ '\\' → Closed pattern → Closed (c :: pattern)

theorem IsPlain.closed {text : List Char} (h : IsPlain text) : Closed text := by
  induction text with
  | nil => exact .nil
  | cons c text ih =>
    obtain ⟨hc, htext⟩ := List.forall_mem_cons.mp h
    refine .other ?_ (ih htext)
    rintro rfl
    exact hc (by decide)

theorem closed_or : ∀ pattern : List Char,
    Closed pattern ∨ ∃ front, Closed front ∧ pattern = front ++ ['\\']
  | [] => .inl .nil
  | c :: pattern => by
    by_cases hc : c = '\\'
    · subst hc
      match pattern with
      | [] => exact .inr ⟨[], .nil, rfl⟩
      | taken :: pattern =>
        rcases closed_or pattern with h | ⟨front, h, rfl⟩
        · exact .inl (.taken taken h)
        · exact .inr ⟨'\\' :: taken :: front, .taken taken h, rfl⟩
    · rcases closed_or pattern with h | ⟨front, h, rfl⟩
      · exact .inl (.other hc h)
      · exact .inr ⟨c :: front, .other hc h, rfl⟩

namespace Like

theorem append {pattern more text later : List Char} (h : Like pattern text)
    (hmore : Like more later) : Like (pattern ++ more) (text ++ later) := by
  induction h with
  | nil => exact hmore
  | run skipped _ ih =>
    rw [List.append_assoc]
    exact .run skipped ih
  | one c _ ih => exact .one c ih
  | taken c _ ih => exact .taken c ih
  | letter hc _ ih => exact .letter hc ih

end Like

theorem like_nil {text : List Char} : Like [] text ↔ text = [] := by
  constructor
  · rintro ⟨⟩
    rfl
  · rintro rfl
    exact .nil

theorem like_run (text : List Char) : Like ['%'] text := by
  simpa only [List.append_nil] using Like.run text .nil

theorem not_like_backslash (text : List Char) : ¬ Like ['\\'] text := by
  intro h
  cases h with
  | letter hc => exact hc (by decide)

theorem like_append {pattern : List Char} (h : Closed pattern) {more text : List Char} :
    Like (pattern ++ more) text ↔
      ∃ first later, text = first ++ later ∧ Like pattern first ∧ Like more later := by
  constructor
  · intro hlike
    induction h generalizing text with
    | nil => exact ⟨[], text, rfl, .nil, hlike⟩
    | taken c _ ih =>
      rw [List.cons_append, List.cons_append] at hlike
      cases hlike with
      | taken _ hlike =>
        obtain ⟨first, later, rfl, hfirst, hlater⟩ := ih hlike
        exact ⟨c :: first, later, rfl, .taken c hfirst, hlater⟩
      | letter hc => exact absurd (by decide) hc
    | @other c pattern hc _ ih =>
      rw [List.cons_append] at hlike
      generalize hrest : pattern ++ more = rest at hlike
      cases hlike with
      | run skipped hlike =>
        subst hrest
        obtain ⟨first, later, rfl, hfirst, hlater⟩ := ih hlike
        exact ⟨skipped ++ first, later, (List.append_assoc ..).symm, .run skipped hfirst, hlater⟩
      | one d hlike =>
        subst hrest
        obtain ⟨first, later, rfl, hfirst, hlater⟩ := ih hlike
        exact ⟨d :: first, later, rfl, .one d hfirst, hlater⟩
      | taken => exact absurd rfl hc
      | letter hletter hlike =>
        subst hrest
        obtain ⟨first, later, rfl, hfirst, hlater⟩ := ih hlike
        exact ⟨c :: first, later, rfl, .letter hletter hfirst, hlater⟩
  · rintro ⟨first, later, rfl, hfirst, hlater⟩
    exact hfirst.append hlater

theorem IsPlain.like_iff {pattern text : List Char} (h : IsPlain pattern) :
    Like pattern text ↔ text = pattern := by
  induction pattern generalizing text with
  | nil => exact like_nil
  | cons c pattern ih =>
    obtain ⟨hc, hpattern⟩ := List.forall_mem_cons.mp h
    constructor
    · intro hlike
      cases hlike with
      | letter _ hlike => rw [(ih hpattern).mp hlike]
      | run => exact absurd (by decide) hc
      | one => exact absurd (by decide) hc
      | taken => exact absurd (by decide) hc
    · rintro rfl
      exact .letter hc ((ih hpattern).mpr rfl)

theorem Closed.exists_like {pattern : List Char} (h : Closed pattern) :
    ∃ text, Like pattern text ∧ text.length ≤ pattern.length ∧
      (text = pattern → IsPlain pattern) := by
  induction h with
  | nil =>
    exact ⟨[], .nil, le_rfl, fun _ c hc ↦ absurd hc List.not_mem_nil⟩
  | @taken c pattern _ ih =>
    obtain ⟨text, hlike, hlength, -⟩ := ih
    refine ⟨c :: text, .taken c hlike, ?_, ?_⟩
    · simp only [List.length_cons]
      omega
    · intro heq
      have hsame := congrArg List.length heq
      simp only [List.length_cons] at hsame
      omega
  | @other c pattern hc _ ih =>
    obtain ⟨text, hlike, hlength, hplain⟩ := ih
    by_cases hrun : c = '%'
    · subst hrun
      refine ⟨text, .run [] hlike, ?_, ?_⟩
      · simp only [List.length_cons]
        omega
      · intro heq
        have hsame := congrArg List.length heq
        simp only [List.length_cons] at hsame
        omega
    by_cases hone : c = '_'
    · subst hone
      refine ⟨'a' :: text, .one 'a' hlike, Nat.succ_le_succ hlength, ?_⟩
      intro heq
      exact absurd (List.cons.inj heq).1 (by decide)
    have hletter : c ∉ ['%', '_', '\\'] := by
      simp only [List.mem_cons, List.not_mem_nil, or_false, not_or]
      exact ⟨hrun, hone, hc⟩
    refine ⟨c :: text, .letter hletter hlike, Nat.succ_le_succ hlength, ?_⟩
    intro heq
    exact List.forall_mem_cons.mpr ⟨hletter, hplain (List.cons.inj heq).2⟩

end Sql

inductive Spot
  | inside
  | start
  | finish

namespace Spot

def Finds (value text : List Char) : Spot → Prop
  | .inside => value <:+: text
  | .start => value <+: text
  | .finish => value <:+ text

def before : Spot → List Char
  | .start => []
  | _ => ['%']

def after : Spot → List Char
  | .finish => []
  | _ => ['%']

def pattern (spot : Spot) (value : List Char) : List Char := spot.before ++ value ++ spot.after

theorem finds_refl (spot : Spot) (text : List Char) : spot.Finds text text := by
  cases spot
  · exact List.infix_rfl
  · exact List.prefix_rfl
  · exact List.suffix_rfl

theorem Finds.isInfix {spot : Spot} {value text : List Char} (h : spot.Finds value text) :
    value <:+: text := by
  cases spot
  · exact h
  · exact List.IsPrefix.isInfix h
  · exact List.IsSuffix.isInfix h

theorem finds_iff (spot : Spot) (value text : List Char) : spot.Finds value text ↔
    ∃ first last, text = first ++ value ++ last ∧
      Like spot.before first ∧ Like spot.after last := by
  cases spot with
  | inside =>
    simp only [Finds, before, after, like_run, and_true, List.IsInfix, eq_comm]
  | start =>
    simp only [Finds, before, after, like_run, like_nil, List.IsPrefix, and_true]
    constructor
    · rintro ⟨last, rfl⟩
      exact ⟨[], last, rfl, rfl⟩
    · rintro ⟨first, last, rfl, rfl⟩
      exact ⟨last, rfl⟩
  | finish =>
    simp only [Finds, before, after, like_run, like_nil, List.IsSuffix, true_and]
    constructor
    · rintro ⟨first, rfl⟩
      exact ⟨first, [], (List.append_nil _).symm, rfl⟩
    · rintro ⟨first, last, rfl, rfl⟩
      exact ⟨first, (List.append_nil _).symm⟩

theorem closed_before (spot : Spot) : Closed spot.before := by
  cases spot
  · exact .other (by decide) .nil
  · exact .nil
  · exact .other (by decide) .nil

theorem like_pattern (spot : Spot) {value : List Char} (h : Closed value) (text : List Char) :
    Like (spot.pattern value) text ↔ ∃ part, Like value part ∧ spot.Finds part text := by
  simp only [pattern, List.append_assoc, like_append spot.closed_before, like_append h, finds_iff]
  constructor
  · rintro ⟨first, _, rfl, hfirst, part, last, rfl, hpart, hlast⟩
    exact ⟨part, hpart, first, last, rfl, hfirst, hlast⟩
  · rintro ⟨part, hpart, first, last, rfl, hfirst, hlast⟩
    exact ⟨first, part ++ last, rfl, hfirst, part, last, rfl, hpart, hlast⟩

/-- A pattern in which the value ends in a backslash too many finds the wrong texts: the backslash
takes the sign behind the value, and without one the pattern finds nothing. -/
theorem not_like_pattern_iff (spot : Spot) {front : List Char} (h : Closed front) :
    ¬ ∀ text, Like (spot.pattern (front ++ ['\\'])) text ↔
      spot.Finds (front ++ ['\\']) text := by
  intro hiff
  by_cases hafter : spot.after = []
  · have hlike := (hiff (front ++ ['\\'])).mpr (spot.finds_refl _)
    rw [pattern, hafter, List.append_nil, like_append spot.closed_before] at hlike
    obtain ⟨-, text, -, -, hvalue⟩ := hlike
    obtain ⟨-, last, -, -, hlast⟩ := (like_append h).mp hvalue
    exact not_like_backslash last hlast
  · obtain ⟨text, hlike, hlength, -⟩ := h.exists_like
    have hpattern : Like (spot.pattern (front ++ ['\\'])) (text ++ ['%']) := by
      have hsigns : spot.pattern (front ++ ['\\']) = spot.before ++ (front ++ ['\\', '%']) := by
        cases spot
        · simp [pattern, before, after]
        · simp [pattern, before, after]
        · exact absurd rfl hafter
      rw [hsigns, like_append spot.closed_before]
      refine ⟨[], text ++ ['%'], rfl, ?_, hlike.append (.taken '%' .nil)⟩
      cases spot
      · exact like_run []
      · exact .nil
      · exact like_run []
    have hinfix := ((hiff _).mp hpattern).isInfix
    have hsame : front ++ ['\\'] = text ++ ['%'] := by
      apply hinfix.eq_of_length_le
      simp only [List.length_append, List.length_singleton]
      omega
    exact absurd (List.append_inj' hsame rfl).2 (by decide)

theorem like_pattern_iff (spot : Spot) (value : List Char) :
    (∀ text, Like (spot.pattern value) text ↔ spot.Finds value text) ↔ IsPlain value := by
  constructor
  · intro h
    rcases closed_or value with hclosed | ⟨front, hfront, rfl⟩
    · -- The shortest text that is like the value is no longer than it, so it has to be the value.
      obtain ⟨text, hlike, hlength, hplain⟩ := hclosed.exists_like
      have hpattern := (spot.like_pattern hclosed text).mpr ⟨text, hlike, spot.finds_refl text⟩
      have hfound := ((h text).mp hpattern).isInfix
      exact hplain (hfound.eq_of_length_le hlength).symm
    · exact absurd h (spot.not_like_pattern_iff hfront)
  · intro h text
    simp only [spot.like_pattern h.closed, h.like_iff, exists_eq_left]

theorem like_texts_iff (spot : Spot) {value pattern : String}
    (h : pattern.toList = spot.pattern value.toList) :
    (∀ text : String, Like pattern.toList text.toList ↔ spot.Finds value.toList text.toList) ↔
      IsPlain value.toList := by
  rw [h, ← spot.like_pattern_iff]
  constructor
  · intro hiff text
    simpa only [String.toList_ofList] using hiff (String.ofList text)
  · intro hiff text
    exact hiff text.toList

end Spot

/-- What a statement asks of a text that it compares with a pattern. -/
def Comparison.Accepts (pattern text : String) : Comparison → Prop
  | .like => Like pattern.toList text.toList
  | .notLike => ¬ Like pattern.toList text.toList
  | _ => False

/-- The texts that an operator asks for, taken at its word. -/
def Operator.Means (value text : String) : Operator → Prop
  | .contains => value.toList <:+: text.toList
  | .lacks => ¬ value.toList <:+: text.toList
  | .startsWith => value.toList <+: text.toList
  | .endsWith => value.toList <:+ text.toList
  | _ => False

/-- A filter for a part of a text is a comparison with a pattern around its value, and patterns
are bound as they are. It asks for what its operator says if and only if no sign of the value has
a meaning in patterns. -/
theorem Filter.literal_iff_plain (separator : Char) {f : Filter} {op : Operator}
    (hop : op ∈ [.contains, .lacks, .startsWith, .endsWith]) (hcode : f.operator = op.code) :
    ∃ cmp pattern, f.predicate separator = .ok ⟨.compare f.field cmp pattern, f.connective⟩ ∧
      (∀ (d : Draft) (catalog : Catalog),
        d.restrict catalog ⟨.compare f.field cmp pattern, f.connective⟩ =
          .ok (d.push f.connective
            (.single (.atom (.compare (d.column f.field) cmp (.text pattern)))))) ∧
      ((∀ text, cmp.Accepts pattern text ↔ op.Means f.value text) ↔ IsPlain f.value.toList) := by
  have hpredicate := f.predicate_of_code separator hcode
  have hinside : ("%" ++ f.value ++ "%").toList = Spot.inside.pattern f.value.toList := by
    rw [String.toList_append, String.toList_append]
    rfl
  have hstart : (f.value ++ "%").toList = Spot.start.pattern f.value.toList :=
    String.toList_append
  have hfinish : ("%" ++ f.value).toList = Spot.finish.pattern f.value.toList := by
    rw [String.toList_append, Spot.pattern, Spot.after, List.append_nil]
    rfl
  simp only [List.mem_cons, List.not_mem_nil, or_false] at hop
  rcases hop with rfl | rfl | rfl | rfl
  case inl => exact ⟨_, _, hpredicate, fun _ _ ↦ rfl, Spot.inside.like_texts_iff hinside⟩
  case inr.inl =>
    refine ⟨_, _, hpredicate, fun _ _ ↦ rfl, ?_⟩
    simp only [Comparison.Accepts, Operator.Means, not_iff_not]
    exact Spot.inside.like_texts_iff hinside
  case inr.inr.inl => exact ⟨_, _, hpredicate, fun _ _ ↦ rfl, Spot.start.like_texts_iff hstart⟩
  case inr.inr.inr => exact ⟨_, _, hpredicate, fun _ _ ↦ rfl, Spot.finish.like_texts_iff hfinish⟩

def titled : Filter := { field := "title", operator := "sw", value := "Lean 4: " }

theorem literal_iff_plain_titled : titled.operator = Operator.startsWith.code ∧
    titled.predicate '|' = .ok ⟨.compare "title" .like "Lean 4: %", .and⟩ ∧
      ∀ text : String, Like "Lean 4: %".toList text.toList ↔ "Lean 4: ".toList <+: text.toList := by
  have hop : Operator.startsWith ∈ [.contains, .lacks, .startsWith, .endsWith] := by decide
  have hcode : titled.operator = Operator.startsWith.code := rfl
  obtain ⟨cmp, pattern, hpredicate, -, hiff⟩ := Filter.literal_iff_plain '|' hop hcode
  have htest : titled.test '|' .startsWith = .compare "title" cmp pattern :=
    congrArg Predicate.test (Except.ok.inj hpredicate)
  obtain ⟨-, rfl, rfl⟩ := Test.compare.inj htest
  exact ⟨hcode, hpredicate, hiff.mpr (by decide)⟩

/-- A percent sign in a value is a sign of the pattern, so that the filter finds other texts. -/
theorem percent_not_literal :
    (Filter.mk "discount" "ct" "50%" .and).predicate '|' =
        .ok ⟨.compare "discount" .like "%50%%", .and⟩ ∧
      Like "%50%%".toList "500".toList ∧ ¬ "50%".toList <:+: "500".toList := by
  have hnone : Like ['%', '%'] ['0'] := .run [] (.run ['0'] .nil)
  have hzero : Like ['0', '%', '%'] ['0', '0'] := .letter (by decide) hnone
  have hfive : Like ['5', '0', '%', '%'] ['5', '0', '0'] := .letter (by decide) hzero
  exact ⟨rfl, .run [] hfive, by decide⟩

end Listing
