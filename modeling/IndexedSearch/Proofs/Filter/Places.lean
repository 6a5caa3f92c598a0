import IndexedSearch.Proofs.Filter.Remaining
import Mathlib.Data.Prod.Lex
import Mathlib.Order.Basic

/-!
# Places in reading order

Places are ordered as they are read: first by their entries and then within an entry. The conditions
that every match has to satisfy are listed in this order, each with the place where it stands in a
group of the outermost level.
-/

namespace IndexedSearch.Filter

variable {α : Type}

/-- A place comes before another if its entry does, or if it does within the same entry. -/
instance : PartialOrder Position :=
  PartialOrder.lift (fun position ↦ toLex (position.entry, position.condition)) <| by
    intro first second h
    rw [toLex_inj, Prod.mk.injEq] at h
    exact congr (congrArg Position.mk h.1) h.2

theorem Position.lt_iff {first second : Position} :
    first < second ↔
      first.entry < second.entry ∨
        first.entry = second.entry ∧ first.condition < second.condition :=
  Prod.Lex.toLex_lt_toLex

/-- What is enumerated from left to right is numbered in increasing order. -/
theorem pairwise_zipIdx (entries : List α) :
    entries.zipIdx.Pairwise fun first second ↦ first.2 < second.2 := by
  have hrange : (entries.zipIdx.map Prod.snd).Pairwise (· < ·) := by
    rw [List.zipIdx_map_snd]
    exact List.pairwise_lt_range'
  exact List.pairwise_map.1 hrange

namespace Tree

variable {tree : Tree Clause}

/-- A leaf stands at a place in a group of the outermost level. -/
def HasAt (tree : Tree α) (position : Position) (leaf : α) : Prop :=
  ∃ conditions : List α, tree[position.entry]? = some (.group conditions) ∧
    conditions[position.condition]? = some leaf

/-- There is one leaf at a place. -/
theorem HasAt.unique {tree : Tree α} {position : Position} {leaf other : α}
    (h : tree.HasAt position leaf) (hother : tree.HasAt position other) : leaf = other := by
  obtain ⟨conditions, hconditions, hleaf⟩ := h
  obtain ⟨others, hothers, hsecond⟩ := hother
  cases hconditions.symm.trans hothers
  exact Option.some.inj (hleaf.symm.trans hsecond)

/-- The conditions to satisfy are those in groups, unless the outermost level has a marker. -/
theorem mem_terms_iff_hasAt {term : Term} :
    term ∈ tree.terms ↔ tree.hasOr = false ∧ tree.HasAt term.position term.clause := by
  rw [mem_terms]
  apply and_congr_right
  intro _
  constructor
  · intro hexists
    obtain ⟨i, entry, hentry, hterm⟩ := hexists
    obtain ⟨conditions, rfl, rfl, hclause⟩ := Entry.mem_terms.1 hterm
    exact ⟨conditions, hentry, hclause⟩
  · intro hexists
    obtain ⟨conditions, hentry, hclause⟩ := hexists
    exact ⟨_, _, hentry, Entry.mem_terms.2 ⟨conditions, rfl, rfl, hclause⟩⟩

theorem pairwise_entryTerms (i : Nat) (entry : Entry Clause) :
    (entry.terms i).Pairwise fun first second ↦ first.position < second.position := by
  cases entry with
  | or => exact List.Pairwise.nil
  | nested entries => exact List.Pairwise.nil
  | group conditions =>
    unfold Entry.terms
    apply List.pairwise_map.2
    apply (pairwise_zipIdx conditions).imp
    intro first second hlt
    exact Position.lt_iff.2 (.inr ⟨rfl, hlt⟩)

/-- The conditions to satisfy are listed in reading order. -/
theorem pairwise_terms (tree : Tree Clause) :
    tree.terms.Pairwise fun first second ↦ first.position < second.position := by
  cases hor : tree.hasOr with
  | true =>
    rw [terms, if_pos hor]
    exact List.Pairwise.nil
  | false =>
    rw [terms_of_hasOr_eq_false hor, List.pairwise_flatMap]
    constructor
    · intro place _
      exact pairwise_entryTerms place.2 place.1
    · apply (pairwise_zipIdx tree).imp
      intro first second hlt earlier hearlier later hlater
      obtain ⟨_, _, hfirst, _⟩ := Entry.mem_terms.1 hearlier
      obtain ⟨_, _, hsecond, _⟩ := Entry.mem_terms.1 hlater
      apply Position.lt_iff.2
      rw [hfirst, hsecond]
      exact .inl hlt

/-- Different conditions from the list are just those at their places. -/
theorem perm_filter_terms {used : List Term} (hnodup : used.Nodup)
    (hused : ∀ term ∈ used, term ∈ tree.terms) :
    (tree.terms.filter fun term ↦ term.position ∈ used.map Term.position).Perm used := by
  have hterms : tree.terms.Nodup := (pairwise_terms tree).imp fun hlt ↦ by
    rintro rfl
    exact lt_irrefl _ hlt
  apply (List.perm_ext_iff_of_nodup (hterms.filter _) hnodup).2
  intro term
  rw [List.mem_filter, decide_eq_true_iff]
  constructor
  · intro h
    obtain ⟨other, hother, hposition⟩ := List.mem_map.1 h.2
    rwa [← eq_of_position_eq (hused other hother) h.1 hposition]
  · intro hterm
    exact ⟨hused term hterm, List.mem_map_of_mem hterm⟩

end Tree

end IndexedSearch.Filter
