import Listing.Draft
import Listing.Proofs.Segments

namespace Listing

open Sql

theorem Text.exists_first_dot {s : String} (h : '.' ∈ s.toList) :
    ∃ first rest : String, '.' ∉ first.toList ∧ s = first ++ "." ++ rest := by
  obtain ⟨first, rest, hs, hfirst⟩ := List.eq_append_cons_of_mem h
  refine ⟨String.ofList first, String.ofList rest, ?_, ?_⟩
  · rwa [String.toList_ofList]
  · apply String.toList_inj.mp
    rw [toList_append_dot, String.toList_ofList, String.toList_ofList, hs]

theorem Path.qualify_qualify (table field : String) :
    qualify table (qualify table field) = qualify table field := by
  have hkept {field : String} (h : (table ++ ".").toList <+: field.toList) :
      qualify table field = field := by
    rw [qualify, if_pos (List.isPrefixOf_iff_prefix.mpr h)]
  apply hkept
  by_cases h : (table ++ ".").toList <+: field.toList
  · rw [hkept h]
    exact h
  · rw [qualify, if_neg (mt List.isPrefixOf_iff_prefix.mp h)]
    simp only [String.toList_append]
    exact List.prefix_append _ _

theorem Sql.Column.ofField_qualify_of_dot {first rest leaf : String} (hfirst : '.' ∉ first.toList)
    (hleaf : '.' ∉ leaf.toList) (home : String) :
    ofField home (Path.qualify (first ++ "." ++ rest) leaf) = ⟨first, rest ++ "." ++ leaf⟩ := by
  have htext : (first ++ "." ++ rest ++ "." ++ leaf).toList =
      first.toList ++ '.' :: (rest ++ "." ++ leaf).toList := by
    simp only [Text.toList_append_dot, List.append_assoc, List.cons_append]
  rw [Path.qualify_of_not_mem _ hleaf, ofField, htext, Text.cut?_append hfirst]
  simp only [String.ofList_toList]

namespace Draft

/-- The column that any draft reads from a qualified leaf is that of a draft of the table if and
only if the name of the table has no dot. With dots, the first one ends the table that is read. -/
theorem column_qualify_iff (d : Draft) (table : String) {leaf : String}
    (hleaf : '.' ∉ leaf.toList) :
    column { d with table } leaf = ⟨table, leaf⟩ ∧
      (d.column (Path.qualify table leaf) = ⟨table, leaf⟩ ↔ '.' ∉ table.toList) ∧
      (∀ first rest, '.' ∉ first.toList → table = first ++ "." ++ rest →
        d.column (Path.qualify table leaf) = ⟨first, rest ++ "." ++ leaf⟩) ∧
      Path.qualify table (Path.qualify table leaf) = Path.qualify table leaf := by
  refine ⟨Column.ofField_of_not_mem table hleaf, ⟨?_, ?_⟩, ?_, Path.qualify_qualify table leaf⟩
  · intro hread hdot
    obtain ⟨first, rest, hfirst, rfl⟩ := Text.exists_first_dot hdot
    rw [column, Column.ofField_qualify_of_dot hfirst hleaf, Column.mk.injEq] at hread
    exact hfirst (hread.1 ▸ hdot)
  · intro htable
    exact Column.ofField_qualify htable hleaf d.table
  · rintro first rest hfirst rfl
    exact Column.ofField_qualify_of_dot hfirst hleaf d.table

theorem column_qualify_iff_city : '.' ∉ "city".toList ∧
    column { table := "posts" } (Path.qualify "profiles" "city") = ⟨"profiles", "city"⟩ ∧
      column { table := "posts" } (Path.qualify "crm.profiles" "city") =
        ⟨"crm", "profiles.city"⟩ := by
  have hleaf : '.' ∉ "city".toList := by decide
  obtain ⟨-, hread, -, -⟩ := column_qualify_iff { table := "posts" } "profiles" hleaf
  obtain ⟨-, -, hdotted, -⟩ := column_qualify_iff { table := "posts" } "crm.profiles" hleaf
  exact ⟨hleaf, hread.mpr (by decide), hdotted "crm" "profiles" (by decide) rfl⟩

/-- The table of a schema is not read back from a field that it qualifies, though it is from a
bare one. -/
theorem dotted_table_not_read_back :
    column { table := "posts" } (Path.qualify "public.users" "name") ≠ ⟨"public.users", "name"⟩ ∧
      column { table := "public.users" } "name" = ⟨"public.users", "name"⟩ := by
  exact ⟨by decide, rfl⟩

end Draft

end Listing
