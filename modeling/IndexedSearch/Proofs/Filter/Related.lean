import IndexedSearch.Proofs.Filter.Remaining
import Mathlib.Data.List.Forall2

/-!
# Trees of the same shape

Two trees are related if they have the same shape and their leaves are related one by one. A
function that makes related leaves equal then makes the trees equal. What is listed of a tree and
what remains of it do not depend on the leaves: both can be found after the leaves have been
changed.
-/

namespace IndexedSearch.Filter

variable {α β γ : Type}

namespace Entry

mutual

/-- The entries have the same shape, with leaves that are related one by one. -/
inductive IsRelated (r : α → β → Prop) : Entry α → Entry β → Prop
  | or : IsRelated r .or .or
  | group {leaves : List α} {others : List β} (h : List.Forall₂ r leaves others) :
    IsRelated r (.group leaves) (.group others)
  | nested {entries : List (Entry α)} {others : List (Entry β)} (h : AreRelated r entries others) :
    IsRelated r (.nested entries) (.nested others)

/-- The levels have related entries one by one. -/
inductive AreRelated (r : α → β → Prop) : List (Entry α) → List (Entry β) → Prop
  | nil : AreRelated r [] []
  | cons {entry : Entry α} {other : Entry β} {entries : List (Entry α)} {others : List (Entry β)}
    (hentry : IsRelated r entry other) (hentries : AreRelated r entries others) :
    AreRelated r (entry :: entries) (other :: others)

end

section

variable {r : α → β → Prop} {f : α → γ} {g : β → γ}

mutual

theorem IsRelated.mapLeaves_eq (hleaf : ∀ leaf other, r leaf other → f leaf = g other) :
    ∀ {entry : Entry α} {other : Entry β}, entry.IsRelated r other →
      entry.mapLeaves f = other.mapLeaves g
  | _, _, .or => rfl
  | _, _, .group h => by
    have hmapped := List.forall₂_map_left_iff.2 (List.forall₂_map_right_iff.2 (h.imp hleaf))
    rw [List.forall₂_eq_eq_eq] at hmapped
    rw [mapLeaves, mapLeaves, hmapped]
  | _, _, .nested h => by rw [mapLeaves, mapLeaves, AreRelated.mapLeavesAll_eq hleaf h]

theorem AreRelated.mapLeavesAll_eq (hleaf : ∀ leaf other, r leaf other → f leaf = g other) :
    ∀ {entries : List (Entry α)} {others : List (Entry β)}, AreRelated r entries others →
      mapLeavesAll f entries = mapLeavesAll g others
  | _, _, .nil => rfl
  | _, _, .cons hentry hentries => by
    rw [mapLeavesAll, mapLeavesAll, hentry.mapLeaves_eq hleaf, hentries.mapLeavesAll_eq hleaf]

end

end

/-! ## Places -/

/-- The leaves of a group with their places. -/
def placed (i : Nat) : Entry α → List (Position × α)
  | group leaves => leaves.zipIdx.map fun (leaf, j) ↦ (⟨i, j⟩, leaf)
  | _ => []

theorem map_terms (f : Clause → β) (i : Nat) (entry : Entry Clause) :
    ((entry.terms i).map fun term ↦ (term.position, f term.clause)) =
      (entry.mapLeaves f).placed i := by
  cases entry with
  | or => rfl
  | nested entries => rfl
  | group conditions =>
    rw [terms, mapLeaves, placed, List.zipIdx_map, List.map_map, List.map_map]
    rfl

theorem kept_mapLeaves (f : α → β) (positions : List Position) (i : Nat) (entry : Entry α) :
    (entry.mapLeaves f).kept positions i = (entry.kept positions i).mapLeaves f := by
  cases entry with
  | or => rfl
  | nested entries => rfl
  | group conditions =>
    rw [mapLeaves, kept, kept, mapLeaves, keptConditions, keptConditions, List.zipIdx_map,
      List.filter_map, List.map_map, List.map_map]
    rfl

end Entry

namespace Tree

/-- The trees have the same shape, with leaves that are related one by one. -/
def IsRelated (r : α → β → Prop) (tree : Tree α) (other : Tree β) : Prop :=
  Entry.AreRelated r tree other

theorem IsRelated.mapLeaves_eq {r : α → β → Prop} {f : α → γ} {g : β → γ} {tree : Tree α}
    {other : Tree β} (h : tree.IsRelated r other)
    (hleaf : ∀ leaf other, r leaf other → f leaf = g other) :
    tree.mapLeaves f = other.mapLeaves g :=
  Entry.AreRelated.mapLeavesAll_eq hleaf h

/-- The leaves that are listed with their places, as `terms` lists conditions. -/
def placed (tree : Tree α) : List (Position × α) :=
  if tree.hasOr then [] else tree.zipIdx.flatMap fun (entry, i) ↦ entry.placed i

/-- Conditions are listed at their places, whatever is read off them. -/
theorem map_terms (f : Clause → β) (tree : Tree Clause) :
    (tree.terms.map fun term ↦ (term.position, f term.clause)) = (tree.mapLeaves f).placed := by
  rw [placed, hasOr_mapLeaves]
  cases hor : tree.hasOr with
  | true =>
    rw [terms, if_pos hor]
    rfl
  | false =>
    rw [terms_of_hasOr_eq_false hor, List.map_flatMap, mapLeaves, Entry.mapLeavesAll_eq_map,
      List.zipIdx_map, List.flatMap_map]
    simp only [Entry.map_terms]
    rfl

/-- Conditions can be taken out before or after leaves are changed. -/
theorem mapLeaves_without (f : α → β) (positions : List Position) (tree : Tree α) :
    (tree.without positions).mapLeaves f = (tree.mapLeaves f).without positions := by
  rw [without_eq, without_eq, mapLeaves, mapLeaves, Entry.mapLeavesAll_eq_map,
    Entry.mapLeavesAll_eq_map, List.zipIdx_map, List.map_map, List.map_map]
  apply List.map_congr_left
  intro place _
  exact (place.1.kept_mapLeaves f positions place.2).symm

end Tree

end IndexedSearch.Filter
