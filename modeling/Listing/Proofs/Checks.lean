import Listing.Schema.Check
import Listing.Proofs.Chains
import Listing.Proofs.Correlation

namespace Listing

namespace Text

theorem mapped_cases (expansions : List (Nat × List Nat)) (runs : List CaseRun) (c : Char) :
    (∃ codes, (c.toNat, codes) ∈ expansions ∧ mapped expansions runs c = codes.map Char.ofNat) ∨
    (∃ run ∈ runs, run.Covers c.toNat ∧
      mapped expansions runs c = [Char.ofNat (c.toNat + run.shift).toNat]) ∨
    ((∀ expansion ∈ expansions, expansion.1 ≠ c.toNat) ∧ (∀ run ∈ runs, ¬ run.Covers c.toNat) ∧
      mapped expansions runs c = [c]) := by
  unfold mapped
  cases hlookup : expansions.lookup c.toNat with
  | some codes =>
    obtain ⟨before, after, rfl, -⟩ := List.lookup_eq_some_iff.mp hlookup
    exact Or.inl ⟨codes, List.mem_append_right _ List.mem_cons_self, rfl⟩
  | none =>
    refine Or.inr ?_
    cases hfind : runs.find? (fun run ↦ run.Covers c.toNat) with
    | some run =>
      have hcovers := List.find?_some hfind
      rw [decide_eq_true_iff] at hcovers
      refine Or.inl ⟨run, List.mem_of_find?_eq_some hfind, hcovers, ?_⟩
      simp only [shifted, hfind]
    | none =>
      refine Or.inr ⟨fun expansion hexpansion ↦ ?_, ?_, ?_⟩
      · have hne := List.lookup_eq_none_iff.mp hlookup expansion hexpansion
        exact Ne.symm (bne_iff_ne.mp hne)
      · simpa using hfind
      · simp only [shifted, hfind]

structure Unreached (expansions : List (Nat × List Nat)) (runs : List CaseRun) (x : Char) :
    Prop where
  positive : 0 < x.toNat
  expansions : ∀ expansion ∈ expansions, x ∉ expansion.2.map Char.ofNat
  runs : ∀ run ∈ runs, ¬ run.Covers (x.toNat - run.shift).toNat

theorem unreached_upper : Unreached upperExpansions upperRuns '.' :=
  ⟨by decide, by decide +kernel, by decide +kernel⟩

theorem unreached_lower : Unreached lowerExpansions lowerRuns '.' :=
  ⟨by decide, by decide +kernel, by decide +kernel⟩

theorem toNat_of_ofNat {n : Nat} {x : Char} (hx : 0 < x.toNat) (h : Char.ofNat n = x) :
    x.toNat = n := by
  subst h
  by_cases hn : n.isValidChar
  · rw [Char.ofNat, dif_pos hn]
    rfl
  · rw [Char.ofNat, dif_neg hn] at hx
    exact absurd hx (Nat.lt_irrefl 0)

variable {expansions : List (Nat × List Nat)} {runs : List CaseRun} {x : Char}

theorem Unreached.eq_of_mem (h : Unreached expansions runs x) {c : Char}
    (hc : x ∈ mapped expansions runs c) : c = x := by
  rcases mapped_cases expansions runs c with
    ⟨codes, hcodes, heq⟩ | ⟨run, hrun, hcovers, heq⟩ | ⟨-, -, heq⟩
  · rw [heq] at hc
    exact absurd hc (h.expansions _ hcodes)
  · rw [heq, List.mem_singleton] at hc
    have hcode : x.toNat = (c.toNat + run.shift).toNat := toNat_of_ofNat h.positive hc.symm
    have hback : (x.toNat - run.shift).toNat = c.toNat := by
      have hpositive := h.positive
      omega
    have hnot := h.runs run hrun
    rw [hback] at hnot
    exact absurd hcovers hnot
  · rw [heq, List.mem_singleton] at hc
    exact hc.symm

theorem mem_of_mem_onFirst {f : Char → List Char} (hf : ∀ c, x ∈ f c → c = x) {l : List Char}
    (h : x ∈ onFirst f l) : x ∈ l := by
  cases l with
  | nil => exact h
  | cons c more =>
    rcases List.mem_append.mp h with hc | hmore
    · exact List.mem_cons.mpr (Or.inl (hf c hc).symm)
    · exact List.mem_cons_of_mem c hmore

theorem mem_of_mem_splitOn {sep : Char} {l word : List Char} (hword : word ∈ l.splitOn sep)
    (h : x ∈ word) : x ∈ l := by
  obtain ⟨i, hi⟩ := List.mem_iff_getElem?.mp hword
  have hwords : word ∈ (l.splitOn sep).intersperse [sep] := by
    apply List.mem_of_getElem? (i := 2 * i)
    rw [List.getElem?_intersperse_two_mul, hi]
  have hjoin : [sep].intercalate (l.splitOn sep) = l := List.intercalate_splitOn sep
  rw [← hjoin, List.intercalate]
  exact List.mem_flatten_of_mem hwords h

theorem exists_word_of_mem_camel (hupper : Unreached upperExpansions upperRuns x)
    (hlower : Unreached lowerExpansions lowerRuns x) {name : String}
    (h : x ∈ (camel name).toList) : ∃ word ∈ name.toList.splitOn '_', x ∈ word := by
  rw [camel, String.toList_ofList] at h
  have hwords := mem_of_mem_onFirst (fun c ↦ hlower.eq_of_mem) h
  obtain ⟨word, hword, hx⟩ := List.mem_flatMap.mp hwords
  exact ⟨word, hword, mem_of_mem_onFirst (fun c ↦ hupper.eq_of_mem) hx⟩

theorem not_mem_camel {name : String} (h : '.' ∉ name.toList) : '.' ∉ (camel name).toList := by
  intro hmem
  obtain ⟨word, hword, hdot⟩ := exists_word_of_mem_camel unreached_upper unreached_lower hmem
  exact h (mem_of_mem_splitOn hword hdot)

theorem parts_intercalate {names : List String} (hne : names ≠ [])
    (h : ∀ name ∈ names, '.' ∉ name.toList) : parts '.' (".".intercalate names) = names := by
  have hlists : ∀ l ∈ names.map String.toList, '.' ∉ l := by
    intro l hl
    obtain ⟨name, hname, rfl⟩ := List.mem_map.mp hl
    exact h name hname
  have hne' : names.map String.toList ≠ [] := fun hnil ↦ hne (List.map_eq_nil_iff.mp hnil)
  rw [parts, String.toList_intercalate]
  change (List.splitOn '.' (['.'].intercalate _)).map _ = _
  rw [List.splitOn_intercalate '.' hlists hne', List.map_map]
  simp only [Function.comp_def, String.ofList_toList, List.map_id']

end Text

namespace Path

def named (leafLast : Bool) (text : String) : Path :=
  if leafLast then ofAttribute text else ofRelation text

/-- The path without its empty segments. -/
def tidy (text : String) : String := ".".intercalate ((Text.parts '.' text).filter (· ≠ ""))

def leading (leafLast : Bool) (names : List String) : List String :=
  if leafLast then names.dropLast else names

theorem leading_cons (leafLast : Bool) (name : String) (more : List String) :
    leading leafLast (name :: more) =
      if leafLast && more.isEmpty then [] else name :: leading leafLast more := by
  cases leafLast with
  | false => rfl
  | true => cases more <;> rfl

theorem leading_map (leafLast : Bool) (names : List String) (f : String → String) :
    leading leafLast (names.map f) = (leading leafLast names).map f := by
  cases leafLast with
  | false => rfl
  | true => exact List.map_dropLast.symm

theorem mem_of_mem_leading {leafLast : Bool} {names : List String} {name : String}
    (h : name ∈ leading leafLast names) : name ∈ names := by
  cases leafLast with
  | false => exact h
  | true => exact List.mem_of_mem_dropLast h

theorem prefix_leading_filter {leafLast : Bool} {segments : List String}
    (h : ∀ segment ∈ leading leafLast segments, segment ≠ "") :
    leading leafLast (segments.filter (· ≠ "")) <+: leading leafLast segments := by
  have hkept : (leading leafLast segments).filter (· ≠ "") = leading leafLast segments :=
    List.filter_eq_self.mpr fun segment hsegment ↦ decide_eq_true (h segment hsegment)
  cases leafLast with
  | false =>
    change segments.filter (· ≠ "") = segments at hkept
    rw [hkept]
  | true =>
    change segments.dropLast.filter (· ≠ "") = segments.dropLast at hkept
    change (segments.filter (· ≠ "")).dropLast <+: segments.dropLast
    rcases List.eq_nil_or_concat segments with rfl | ⟨first, last, rfl⟩
    · exact List.prefix_rfl
    · rw [List.concat_eq_append, List.dropLast_concat] at hkept
      rw [List.concat_eq_append, List.dropLast_concat, List.filter_append, hkept]
      by_cases hlast : last = ""
      · rw [List.filter_cons_of_neg (by simp [hlast]), List.filter_nil, List.append_nil]
        exact List.dropLast_prefix first
      · rw [List.filter_cons_of_pos (by simp [hlast]), List.filter_nil, List.dropLast_concat]

theorem relations_named (leafLast : Bool) (text : String) :
    (named leafLast text).relations = (leading leafLast (segments text)).map Text.camel := by
  cases leafLast <;> rfl

theorem not_mem_of_mem_segments {text segment : String} (h : segment ∈ segments text) :
    '.' ∉ segment.toList := by
  rw [segments] at h
  split at h
  · exact absurd h List.not_mem_nil
  · exact Text.not_mem_of_mem_parts h

theorem segments_tidy (text : String) :
    segments (tidy text) = (Text.parts '.' text).filter (· ≠ "") := by
  by_cases hnil : (Text.parts '.' text).filter (· ≠ "") = []
  · rw [tidy, hnil]
    rfl
  · have hdots : ∀ segment ∈ (Text.parts '.' text).filter (· ≠ ""), '.' ∉ segment.toList :=
      fun segment h ↦ Text.not_mem_of_mem_parts (List.mem_filter.mp h).1
    have hparts : Text.parts '.' (tidy text) = (Text.parts '.' text).filter (· ≠ "") :=
      Text.parts_intercalate hnil hdots
    have hne : tidy text ≠ "" := by
      intro hempty
      rw [hempty] at hparts
      have hmem : "" ∈ (Text.parts '.' text).filter (· ≠ "") := by
        rw [← hparts]
        exact List.mem_singleton_self ""
      simp at hmem
    rw [segments, if_neg hne, hparts]

theorem tidy_eq_self {text : String} (h : ∀ segment ∈ segments text, segment ≠ "") :
    tidy text = text := by
  by_cases hempty : text = ""
  · subst hempty
    rfl
  · rw [segments, if_neg hempty] at h
    have hfilter : (Text.parts '.' text).filter (· ≠ "") = Text.parts '.' text :=
      List.filter_eq_self.mpr fun segment hsegment ↦ decide_eq_true (h segment hsegment)
    rw [tidy, hfilter, Text.intercalate_parts]

end Path

namespace Catalog

variable {catalog : Catalog}

/-- The path names no relations, or relations that exist, each from the table of the one before. -/
def Resolves (catalog : Catalog) (root : String) (p : Path) : Prop :=
  p.chain? = none ∨ ∃ chain hops, p.chain? = some chain ∧ catalog.resolve root chain = .ok hops

theorem exists_walk_of_longer {owner : String} {names longer : List String}
    (hbegins : names <+: longer) (h : ∃ hops, catalog.walk owner longer = .ok hops) :
    ∃ hops, catalog.walk owner names = .ok hops := by
  obtain ⟨more, rfl⟩ := hbegins
  obtain ⟨hops, h⟩ := h
  rw [walk_append] at h
  cases hw : catalog.walk owner names with
  | ok first => exact ⟨first, rfl⟩
  | error failure =>
    rw [hw] at h
    cases h

theorem ne_of_mem_walk {absent : String} (hnames : ∀ owner, catalog.relation? owner absent = none)
    {owner : String} {names : List String} {hops : List Relation}
    (h : catalog.walk owner names = .ok hops) : ∀ name ∈ names, name ≠ absent := by
  induction names generalizing owner hops with
  | nil => exact fun name hname ↦ absurd hname List.not_mem_nil
  | cons name names ih =>
    obtain ⟨hop, more, hrelation, hw, rfl⟩ := walk_cons_eq_ok.mp h
    refine List.forall_mem_cons.mpr ⟨?_, ih hw⟩
    rintro rfl
    rw [hnames owner] at hrelation
    cases hrelation

theorem resolves_iff {root : String} {p : Path} (h : ∀ name ∈ p.relations, '.' ∉ name.toList) :
    catalog.Resolves root p ↔ ∃ hops, catalog.walk root p.relations = .ok hops := by
  rw [Resolves, Path.chain?, Path.hasRelations]
  cases hrelations : p.relations with
  | nil => simp [walk]
  | cons name more =>
    rw [hrelations] at h
    have hparts := Text.parts_intercalate (List.cons_ne_nil name more) h
    simp [resolve, hparts]

theorem resolves_named {root text : String} {leafLast : Bool} :
    catalog.Resolves root (.named leafLast text) ↔
      ∃ hops, catalog.walk root
        ((Path.leading leafLast (Path.segments text)).map Text.camel) = .ok hops := by
  rw [resolves_iff, Path.relations_named]
  intro name hname
  rw [Path.relations_named] at hname
  obtain ⟨segment, hsegment, rfl⟩ := List.mem_map.mp hname
  exact Text.not_mem_camel (Path.not_mem_of_mem_segments (Path.mem_of_mem_leading hsegment))

theorem isValid_scan (leafLast : Bool) (owner : String) (names : List String) :
    (catalog.scan leafLast owner names).isValid ↔
      ∃ hops, catalog.walk owner (Path.leading leafLast names) = .ok hops := by
  induction names generalizing owner with
  | nil => cases leafLast <;> simp [scan, Check.isValid, Path.leading, walk]
  | cons name more ih =>
    rw [scan, Path.leading_cons]
    by_cases hlast : (leafLast && more.isEmpty) = true
    · -- The last name may stand for an attribute, so it counts whether it is a relation or not.
      obtain ⟨rfl, hmore⟩ := (Bool.and_eq_true _ _).mp hlast
      obtain rfl := List.isEmpty_iff.mp hmore
      cases catalog.relation? owner name <;>
        simp [scan, Check.isValid, Check.passed, walk]
    · simp only [if_neg hlast, walk]
      cases catalog.relation? owner name with
      | none => simp [Check.isValid, Check.missed]
      | some hop =>
        have hpassed : ((catalog.scan leafLast hop.target more).passed name).isValid =
          (catalog.scan leafLast hop.target more).isValid := rfl
        simp only [hpassed, ih]
        cases catalog.walk hop.target (Path.leading leafLast more) <;> simp [Except.map]

theorem isValid_check (root text : String) (leafLast : Bool) :
    (catalog.check root text leafLast).isValid ↔
      catalog.Resolves root (.named leafLast (Path.tidy text)) := by
  rw [resolves_named, Path.segments_tidy, ← Path.leading_map, ← isValid_scan, check]
  split
  · rfl
  · rfl

theorem resolves_tidy (hnames : ∀ owner, catalog.relation? owner "" = none) {root text : String}
    {leafLast : Bool} (h : catalog.Resolves root (.named leafLast text)) :
    catalog.Resolves root (.named leafLast (Path.tidy text)) := by
  by_cases hempty : text = ""
  · subst hempty
    exact h
  · rw [resolves_named, Path.segments, if_neg hempty] at h
    rw [resolves_named, Path.segments_tidy]
    obtain ⟨hops, hwalk⟩ := h
    have hne : ∀ segment ∈ Path.leading leafLast (Text.parts '.' text), segment ≠ "" := by
      rintro segment hsegment rfl
      exact ne_of_mem_walk hnames hwalk (Text.camel "") (List.mem_map_of_mem hsegment) rfl
    exact exists_walk_of_longer ((Path.prefix_leading_filter hne).map Text.camel) ⟨hops, hwalk⟩

/-- A check passes over empty segments, which no walk does. -/
theorem check_resolves {catalog : Catalog} (hnames : ∀ owner, catalog.relation? owner "" = none)
    (root text : String) (leafLast : Bool) :
    ((catalog.check root text leafLast).isValid ↔
      catalog.Resolves root (.named leafLast (Path.tidy text))) ∧
    ((∀ segment ∈ Path.segments text, segment ≠ "") →
      ((catalog.check root text leafLast).isValid ↔
        catalog.Resolves root (.named leafLast text))) ∧
    (catalog.Resolves root (.named leafLast text) →
      (catalog.check root text leafLast).isValid) := by
  refine ⟨isValid_check root text leafLast, ?_, ?_⟩
  · intro hfull
    rw [isValid_check, Path.tidy_eq_self hfull]
  · intro hresolves
    exact (isValid_check root text leafLast).mpr (resolves_tidy hnames hresolves)

theorem shelf_unnamed (owner : String) : shelf.catalog.relation? owner "" = none := by
  have hnonempty : ∀ relation ∈ shelf.relations, relation.name ≠ "" := by decide +kernel
  apply Option.eq_none_iff_forall_ne_some.mpr
  intro relation hrelation
  exact hnonempty relation (Schema.mem_of_relation? hrelation)
    (Schema.owner_of_relation? hrelation).2

theorem check_resolves_shelf : (∀ owner, shelf.catalog.relation? owner "" = none) ∧
    shelf.catalog.Resolves "posts" (.named true "author.company.name") ∧
    (shelf.catalog.check "posts" "author.company.name" true).isValid := by
  have hvalid : (shelf.catalog.check "posts" "author.company.name" true).isValid := by
    decide +kernel
  have hfull : ∀ segment ∈ Path.segments "author.company.name", segment ≠ "" := by
    decide +kernel
  have hresolves := check_resolves shelf_unnamed "posts" "author.company.name" true
  exact ⟨shelf_unnamed, (hresolves.2.1 hfull).mp hvalid, hvalid⟩

/-- A doubled dot in front of the attribute is let pass, but stands for a relation that is not
there. -/
theorem doubled_dot_passes : (∀ owner, shelf.catalog.relation? owner "" = none) ∧
    (shelf.catalog.check "posts" "author..name" true).isValid = true ∧
    ¬ shelf.catalog.Resolves "posts" (.named true "author..name") := by
  refine ⟨shelf_unnamed, by decide +kernel, ?_⟩
  rintro (hnone | ⟨chain, hops, hchain, hresolve⟩)
  · exact absurd hnone (by decide +kernel)
  · have hauthor : (Path.named true "author..name").chain? = some "author." := by decide +kernel
    rw [hauthor, Option.some_inj] at hchain
    subst hchain
    cases hresolve

end Catalog

end Listing
