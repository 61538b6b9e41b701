import Listing.Draft
import Listing.Proofs.Checks

namespace Listing

namespace Text

theorem not_underscore_mem_camel (name : String) : '_' ∉ (camel name).toList := by
  have hupper : Unreached upperExpansions upperRuns '_' :=
    ⟨by decide, by decide +kernel, by decide +kernel⟩
  have hlower : Unreached lowerExpansions lowerRuns '_' :=
    ⟨by decide, by decide +kernel, by decide +kernel⟩
  intro hmem
  obtain ⟨word, hword, hunderscore⟩ := exists_word_of_mem_camel hupper hlower hmem
  have hpart : '_' ∉ (String.ofList word).toList := not_mem_of_mem_parts (List.mem_map_of_mem hword)
  rw [String.toList_ofList] at hpart
  exact hpart hunderscore

theorem exists_last_dot {s : String} (h : '.' ∈ s.toList) :
    ∃ before last : String, '.' ∉ last.toList ∧ s = before ++ "." ++ last := by
  obtain ⟨last, before, hs, hlast⟩ := List.eq_append_cons_of_mem (List.mem_reverse.mpr h)
  refine ⟨String.ofList before.reverse, String.ofList last.reverse, ?_, ?_⟩
  · rwa [String.toList_ofList, List.mem_reverse]
  · apply String.toList_inj.mp
    rw [toList_append_dot, String.toList_ofList, String.toList_ofList, ← List.reverse_reverse s.toList,
      hs, List.reverse_append, List.reverse_cons, List.append_assoc]
    rfl

/-- All of a text without dots, and otherwise what follows its last dot. -/
def IsLastOf (last text : String) : Prop :=
  '.' ∉ last.toList ∧ (text = last ∨ ∃ before, text = before ++ "." ++ last)

theorem isLastOf_lastPart (text : String) : IsLastOf (lastPart text) text := by
  refine ⟨not_mem_lastPart text, ?_⟩
  by_cases hdot : '.' ∈ text.toList
  · obtain ⟨before, last, hlast, rfl⟩ := exists_last_dot hdot
    refine Or.inr ⟨before, ?_⟩
    rw [lastPart, parts_append, parts_of_not_mem hlast, List.getLastD_concat]
  · exact Or.inl (lastPart_of_not_mem hdot).symm

end Text

namespace Path

/-- What a path keeps of its text. Its relations are segments of the text in camel case, each in
its place, and its chain is taken apart into them again where it is walked and where it is loaded
along. -/
structure Keeps (leafLast : Bool) (text : String) (p : Path) : Prop where
  text_eq : p.text = text
  withLeaf : leafLast = true →
    p.relations.length = text.toList.count '.' ∧ Text.IsLastOf p.leaf text
  withoutLeaf : leafLast = false → p.leaf = "" ∧
    p.relations.length = if text = "" then 0 else text.toList.count '.' + 1
  separators : ∀ name ∈ p.relations, '.' ∉ name.toList ∧ '_' ∉ name.toList
  names : ∀ i < p.relations.length, p.relations[i]? = (Text.parts '.' text)[i]?.map Text.camel
  unchained : p.chain? = none ↔ p.relations = []
  parts : ∀ chain ∈ p.chain?, Text.parts '.' chain = p.relations
  walked : ∀ chain ∈ p.chain?, ∀ (catalog : Catalog) (root : String),
    catalog.resolve root chain = catalog.walk root p.relations
  routed : ∀ chain ∈ p.chain?, ∀ hops : List Relation,
    Draft.route chain hops = Draft.stations "" (p.relations.zip hops)

theorem prefix_relations_named (leafLast : Bool) (text : String) :
    (named leafLast text).relations <+: (Text.parts '.' text).map Text.camel := by
  rw [relations_named]
  refine List.IsPrefix.map Text.camel ?_
  by_cases hempty : text = ""
  · subst hempty
    cases leafLast <;> exact List.nil_prefix
  · rw [segments, if_neg hempty]
    cases leafLast with
    | false => exact List.prefix_rfl
    | true => exact List.dropLast_prefix _

theorem separators_named {leafLast : Bool} {text name : String}
    (h : name ∈ (named leafLast text).relations) : '.' ∉ name.toList ∧ '_' ∉ name.toList := by
  rw [relations_named] at h
  obtain ⟨segment, hsegment, rfl⟩ := List.mem_map.mp h
  have hdot := not_mem_of_mem_segments (mem_of_mem_leading hsegment)
  exact ⟨Text.not_mem_camel hdot, Text.not_underscore_mem_camel segment⟩

theorem length_ofAttribute (text : String) :
    (ofAttribute text).relations.length = text.toList.count '.' := by
  simp only [ofAttribute, List.length_map, List.length_dropLast]
  by_cases hempty : text = ""
  · subst hempty
    rfl
  · rw [segments, if_neg hempty, Text.length_parts, Nat.add_sub_cancel]

theorem length_ofRelation (text : String) : (ofRelation text).relations.length =
    if text = "" then 0 else text.toList.count '.' + 1 := by
  simp only [ofRelation, List.length_map, segments]
  by_cases hempty : text = ""
  · rw [if_pos hempty, if_pos hempty, List.length_nil]
  · rw [if_neg hempty, if_neg hempty, Text.length_parts]

theorem chain?_eq_some {p : Path} {chain : String} :
    p.chain? = some chain ↔ p.relations ≠ [] ∧ ".".intercalate p.relations = chain := by
  simp [chain?, hasRelations]

/-- Nothing that has to be found again is lost when a path is taken apart. -/
theorem named_keeps (leafLast : Bool) (text : String) :
    (named leafLast text).Keeps leafLast text := by
  have hparts : ∀ chain ∈ (named leafLast text).chain?,
      Text.parts '.' chain = (named leafLast text).relations := by
    intro chain hchain
    obtain ⟨hne, rfl⟩ := chain?_eq_some.mp hchain
    exact Text.parts_intercalate hne fun name hname ↦ (separators_named hname).1
  constructor
  case text_eq => cases leafLast <;> rfl
  case withLeaf =>
    rintro rfl
    refine ⟨length_ofAttribute text, ?_⟩
    change Text.IsLastOf (ofAttribute text).leaf text
    rw [leaf_ofAttribute]
    exact Text.isLastOf_lastPart text
  case withoutLeaf =>
    rintro rfl
    exact ⟨rfl, length_ofRelation text⟩
  case separators => exact fun name hname ↦ separators_named hname
  case names =>
    intro i hi
    rw [← List.getElem?_map, List.getElem?_eq_getElem hi]
    exact (List.prefix_iff_getElem?.mp (prefix_relations_named leafLast text) i hi).symm
  case unchained => simp [chain?, hasRelations]
  case parts => exact hparts
  case walked =>
    intro chain hchain catalog root
    rw [Catalog.resolve, hparts chain hchain]
  case routed =>
    intro chain hchain hops
    rw [Draft.route, hparts chain hchain]

example : (ofAttribute "order_items..postal_code").relations = ["orderItems", ""] ∧
    (ofAttribute "order_items..postal_code").chain? = some "orderItems." ∧
    (ofAttribute "order_items..postal_code").leaf = "postal_code" := by decide +kernel

end Path

end Listing
