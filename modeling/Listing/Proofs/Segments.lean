import Listing.Path
import Listing.Sql.Condition

namespace Listing

namespace Text

theorem not_mem_of_mem_parts {sep : Char} {s part : String} (h : part ∈ parts sep s) :
    sep ∉ part.toList := by
  obtain ⟨segment, hsegment, rfl⟩ := List.mem_map.mp h
  rw [String.toList_ofList]
  clear h
  generalize s.toList = l at hsegment
  induction l generalizing segment with
  | nil =>
    obtain rfl : segment = [] := by simpa using hsegment
    exact List.not_mem_nil
  | cons c more ih =>
    rw [List.splitOn_cons_eq_if_modifyHead] at hsegment
    split at hsegment
    · rcases List.mem_cons.mp hsegment with rfl | hmore
      · exact List.not_mem_nil
      · exact ih segment hmore
    · rename_i hc
      cases hm : List.splitOn sep more with
      | nil => exact absurd hm (List.splitOn_ne_nil sep more)
      | cons first later =>
        rw [hm, List.modifyHead_cons] at hsegment
        rw [hm] at ih
        rcases List.mem_cons.mp hsegment with rfl | hlater
        · intro hmem
          rcases List.mem_cons.mp hmem with rfl | hmem
          · exact hc (beq_self_eq_true _)
          · exact ih first List.mem_cons_self hmem
        · exact ih segment (List.mem_cons_of_mem _ hlater)

theorem parts_ne_nil (sep : Char) (s : String) : parts sep s ≠ [] := by
  rw [parts, ne_eq, List.map_eq_nil_iff]
  exact List.splitOn_ne_nil sep _

theorem singleton_intercalate_parts (sep : Char) (s : String) :
    (String.singleton sep).intercalate (parts sep s) = s := by
  apply String.toList_inj.mp
  rw [String.toList_intercalate, String.toList_singleton, parts, List.map_map]
  have hid : (List.splitOn sep s.toList).map (String.toList ∘ String.ofList) =
      List.splitOn sep s.toList := by
    simp only [Function.comp_def, String.toList_ofList, List.map_id']
  rw [hid]
  exact List.intercalate_splitOn sep

theorem intercalate_parts (s : String) : ".".intercalate (parts '.' s) = s :=
  singleton_intercalate_parts '.' s

theorem toList_append_dot (first rest : String) :
    (first ++ "." ++ rest).toList = first.toList ++ '.' :: rest.toList := by
  rw [String.toList_append, String.toList_append, List.append_assoc]
  rfl

theorem parts_append (a b : String) : parts '.' (a ++ "." ++ b) = parts '.' a ++ parts '.' b := by
  rw [parts, toList_append_dot, List.splitOn_append_cons_self, List.map_append, parts, parts]

theorem parts_of_not_mem {sep : Char} {s : String} (h : sep ∉ s.toList) : parts sep s = [s] := by
  rw [parts, List.splitOn_eq_singleton h, List.map_singleton, String.ofList_toList]

theorem cut?_eq_none {sep : Char} {l : List Char} (h : sep ∉ l) : cut? sep l = none := by
  induction l with
  | nil => rfl
  | cons c more ih =>
    rw [List.mem_cons, not_or] at h
    obtain ⟨hc, hmore⟩ := h
    rw [cut?, if_neg (Ne.symm hc), ih hmore, Option.map_none]

theorem cut?_append {sep : Char} {l : List Char} (h : sep ∉ l) (more : List Char) :
    cut? sep (l ++ sep :: more) = some (l, more) := by
  induction l with
  | nil => rw [List.nil_append, cut?, if_pos rfl]
  | cons c l ih =>
    rw [List.mem_cons, not_or] at h
    obtain ⟨hc, hl⟩ := h
    rw [List.cons_append, cut?, if_neg (Ne.symm hc), ih hl, Option.map_some]

def lastPart (path : String) : String := (parts '.' path).getLastD ""

theorem not_mem_lastPart (path : String) : '.' ∉ (lastPart path).toList := by
  rw [lastPart, List.getLastD_eq_getLast?, List.getLast?_eq_some_getLast (parts_ne_nil '.' path)]
  exact not_mem_of_mem_parts (List.getLast_mem _)

theorem lastPart_of_not_mem {path : String} (h : '.' ∉ path.toList) : lastPart path = path := by
  rw [lastPart, parts_of_not_mem h]
  rfl

end Text

theorem Path.qualify_of_not_mem {field : String} (table : String) (h : '.' ∉ field.toList) :
    qualify table field = table ++ "." ++ field := by
  have hprefix : ¬ (table ++ ".").toList.isPrefixOf field.toList := by
    intro hp
    rw [List.isPrefixOf_iff_prefix] at hp
    refine h (hp.subset ?_)
    rw [String.toList_append]
    exact List.mem_append_right _ (List.mem_singleton_self _)
  rw [qualify, if_neg hprefix]

namespace Sql.Column

theorem ofField_of_not_mem {field : String} (table : String) (h : '.' ∉ field.toList) :
    ofField table field = ⟨table, field⟩ := by
  rw [ofField, Text.cut?_eq_none h]

theorem ofField_qualify {table field : String} (htable : '.' ∉ table.toList)
    (hfield : '.' ∉ field.toList) (home : String) :
    ofField home (Path.qualify table field) = ⟨table, field⟩ := by
  rw [Path.qualify_of_not_mem table hfield, ofField, Text.toList_append_dot,
    Text.cut?_append htable]
  simp only [String.ofList_toList]

end Sql.Column

end Listing
