import IndexedSearch.Proofs.Expression.Resolution
import IndexedSearch.Proofs.NameMap
import IndexedSearch.Request.Plan

/-!
# Tables of placeholders

The table of a request is made by inserting its entries one after another, each under the
placeholder of the number of entries before it. Different numbers have different placeholders, so
no entry is replaced, the table has as many entries as were inserted, and each placeholder stands
for the entry of its number.
-/

namespace IndexedSearch

namespace Plan

open Expression (Tabulates tabulates_append)

variable {α : Type} {placeholder : Nat → String}

theorem placeholderTable_append (entries : List α) (entry : α) :
    placeholderTable placeholder (entries ++ [entry]) =
      (placeholderTable placeholder entries).insert (placeholder entries.length) entry := by
  simp [placeholderTable, NameMap.ofList, List.zipIdx_append]

/-- The names of a table are the placeholders of its numbers. -/
theorem perm_keys_placeholderTable (hplaceholder : Function.Injective placeholder)
    (entries : List α) :
    ((placeholderTable placeholder entries).map Prod.fst).Perm
      ((List.range entries.length).map placeholder) := by
  have hnames : (entries.zipIdx.map fun place ↦ (placeholder place.2, place.1)).map Prod.fst =
      (List.range entries.length).map placeholder := by
    calc
      _ = (entries.zipIdx.map Prod.snd).map placeholder := by
        rw [List.map_map, List.map_map]
        rfl
      _ = (List.range entries.length).map placeholder := by
        rw [List.zipIdx_map_snd, List.range_eq_range']
  rw [← hnames]
  apply NameMap.perm_keys_ofList
  rw [hnames]
  exact List.nodup_range.map hplaceholder

/-- A table has as many entries as were put into it. -/
theorem length_placeholderTable (hplaceholder : Function.Injective placeholder)
    (entries : List α) : (placeholderTable placeholder entries).length = entries.length := by
  have h := (perm_keys_placeholderTable hplaceholder entries).length_eq
  rwa [List.length_map, List.length_map, List.length_range] at h

/-- A table has every entry under the placeholder of its number. -/
theorem tabulates_placeholderTable (hplaceholder : Function.Injective placeholder)
    (entries : List α) :
    Tabulates (placeholderTable placeholder entries) placeholder 0 entries := by
  induction entries using List.reverseRecOn with
  | nil => rfl
  | append_singleton entries entry ih =>
    rw [placeholderTable_append, tabulates_append]
    constructor
    · apply Eq.trans _ ih
      apply List.map_congr_left
      intro index hindex
      have hne : placeholder index ≠ placeholder entries.length := by
        intro heq
        have : index = entries.length := hplaceholder heq
        have := List.mem_range'_1.1 hindex
        omega
      exact NameMap.get?_insert_of_ne _ _ hne
    · simp [Tabulates, NameMap.get?_insert_self]

end Plan

end IndexedSearch
