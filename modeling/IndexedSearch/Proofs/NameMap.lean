import IndexedSearch.NameMap
import Mathlib.Data.List.Induction
import Mathlib.Data.List.Nodup
import Mathlib.Data.List.Perm.Subperm
import Mathlib.Order.Basic

/-!
# Lists of entries as maps

The map of a list has the names of the list, each once and with the last of its values. It is as
long as the list just if no name occurs twice there.
-/

namespace IndexedSearch.NameMap

variable {α : Type} {entries : NameMap α} {name : String} {value : α}

theorem contains_iff_mem : entries.contains name = true ↔ name ∈ entries.map Prod.fst := by
  rw [contains, get?, List.lookup_isSome_iff, List.mem_map]
  exact exists_congr fun entry ↦ and_congr_right fun _ ↦ beq_iff_eq.trans eq_comm

/-- Every name of a sorted map occurs once. -/
theorem Sorted.nodup (h : entries.Sorted) : (entries.map Prod.fst).Nodup := by
  apply List.pairwise_map.2
  apply h.imp
  intro earlier later hlt heq
  rw [heq] at hlt
  exact String.lt_irrefl later.1 hlt

/-- In a sorted map, only larger names stand behind an entry. -/
theorem Sorted.exists_eq_append (h : entries.Sorted) (hget : entries.get? name = some value) :
    ∃ before after, entries = before ++ (name, value) :: after ∧
      ∀ later ∈ after, name < later.1 := by
  obtain ⟨before, after, rfl, -⟩ := List.lookup_eq_some_iff.1 hget
  obtain ⟨-, hafter, -⟩ := List.pairwise_append.1 h
  exact ⟨before, after, rfl, (List.pairwise_cons.1 hafter).1⟩

/-! ## The map of a list -/

theorem ofList_append (entries : List (String × α)) (entry : String × α) :
    ofList (entries ++ [entry]) = (ofList entries).insert entry.1 entry.2 := by
  rw [ofList, List.foldl_append]
  rfl

/-- Looking a name up finds its last value. -/
theorem get?_ofList (entries : List (String × α)) (name : String) :
    (ofList entries).get? name = get? entries.reverse name := by
  induction entries using List.reverseRecOn with
  | nil => rfl
  | append_singleton entries entry ih =>
    obtain ⟨other, value⟩ := entry
    rw [ofList_append, List.reverse_append, List.reverse_singleton, List.singleton_append]
    by_cases hname : name = other
    · rw [hname, get?_insert_self, get?, List.lookup_cons_self]
    · rw [get?_insert_of_ne _ _ hname, ih, get?, get?, List.lookup_cons, beq_false_of_ne hname]

/-- The value of a name stays if the name does not occur behind it any more. -/
theorem get?_ofList_of_append {before after : List (String × α)}
    (h : ∀ later ∈ after, later.1 ≠ name) :
    (ofList (before ++ (name, value) :: after)).get? name = some value := by
  rw [get?_ofList, List.reverse_append, List.reverse_cons, List.append_assoc, get?,
    List.lookup_eq_some_iff]
  refine ⟨after.reverse, before.reverse, rfl, ?_⟩
  intro later hlater
  exact bne_iff_ne.2 (h later (List.mem_reverse.1 hlater)).symm

theorem contains_ofList_iff {entries : List (String × α)} :
    (ofList entries).contains name = true ↔ name ∈ entries.map Prod.fst := by
  have hreverse : (ofList entries).contains name = contains entries.reverse name :=
    congrArg Option.isSome (get?_ofList entries name)
  rw [hreverse, contains_iff_mem, List.map_reverse, List.mem_reverse]

theorem mem_keys_ofList_iff {entries : List (String × α)} :
    name ∈ (ofList entries).map Prod.fst ↔ name ∈ entries.map Prod.fst := by
  rw [← contains_iff_mem, contains_ofList_iff]

/-- Entries under different names all stay. -/
theorem perm_keys_ofList {entries : List (String × α)} (h : (entries.map Prod.fst).Nodup) :
    ((ofList entries).map Prod.fst).Perm (entries.map Prod.fst) :=
  (List.perm_ext_iff_of_nodup (sorted_ofList entries).nodup h).2 fun _ ↦ mem_keys_ofList_iff

/-- Nothing is lost just if no name occurs twice. -/
theorem length_ofList_eq_iff {entries : List (String × α)} :
    (ofList entries).length = entries.length ↔ (entries.map Prod.fst).Nodup := by
  constructor
  · intro hlength
    have hnodup : ((ofList entries).map Prod.fst).Nodup := (sorted_ofList entries).nodup
    have hsubperm := hnodup.subperm fun name hname ↦ mem_keys_ofList_iff.1 hname
    have hperm := hsubperm.perm_of_length_le (by simp [hlength])
    exact hperm.nodup_iff.1 hnodup
  · intro hentries
    simpa using (perm_keys_ofList hentries).length_eq

end IndexedSearch.NameMap
