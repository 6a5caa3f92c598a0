import IndexedSearch.Output.Merged
import IndexedSearch.Proofs.Outcome

/-!
# Merging in parts

Pages that are merged and decoded in two parts give what they give together: the items one after
another, the sums of the counters, and the key of the last page.
-/

namespace IndexedSearch

/-- What two parts of a search have found together. -/
def Output.followedBy (first second : Output) : Output :=
  { items := first.items ++ second.items
    count := first.count + second.count
    scannedCount := first.scannedCount + second.scannedCount
    nextKey := second.nextKey }

namespace Merged

variable {pages others : List Page} {decoder : Decoder} {tolerant : Bool} {output : Output}

theorem total_append (counter : Page → UInt64) (pages others : List Page) :
    total counter (pages ++ others) = total counter pages + total counter others := by
  induction pages with
  | nil => simp [total]
  | cons page rest ih =>
    calc
      _ = (counter page).toNat + total counter (rest ++ others) := rfl
      _ = (counter page).toNat + (total counter rest + total counter others) := by rw [ih]
      _ = total counter (page :: rest) + total counter others := (Nat.add_assoc _ _ _).symm

/-- The last page of all is that of the second part. -/
theorem nextKey_ofPages_append (pages : List Page) (h : others ≠ []) :
    (ofPages (pages ++ others)).nextKey = (ofPages others).nextKey := by
  have hlast : (pages ++ others).getLast? = others.getLast? := by
    rw [List.getLast?_append, List.getLast?_eq_some_getLast h, Option.some_or]
  rw [ofPages, hlast, ofPages]

theorem decode_eq_ok_iff {merged : Merged} :
    merged.decode decoder tolerant = .ok output ↔
      ∃ items, merged.items.mapM (decoder tolerant) = .ok items ∧
        ⟨items, merged.count, merged.scannedCount, merged.nextKey⟩ = output := by
  rw [decode, bind_eq_ok_iff]
  simp [pure, Except.pure]

theorem nextKey_of_decode {merged : Merged}
    (h : merged.decode decoder tolerant = .ok output) : output.nextKey = merged.nextKey := by
  obtain ⟨items, _, rfl⟩ := decode_eq_ok_iff.1 h
  rfl

/-- Pages can be decoded just if both parts can. -/
theorem decode_append_eq_ok_iff (h : others ≠ []) :
    (ofPages (pages ++ others)).decode decoder tolerant = .ok output ↔
      ∃ first second, (ofPages pages).decode decoder tolerant = .ok first ∧
        (ofPages others).decode decoder tolerant = .ok second ∧
        first.followedBy second = output := by
  have hitems : (ofPages (pages ++ others)).items =
      (ofPages pages).items ++ (ofPages others).items :=
    List.flatMap_append
  have hcount : (ofPages (pages ++ others)).count =
      (ofPages pages).count + (ofPages others).count :=
    total_append Page.count pages others
  have hscanned : (ofPages (pages ++ others)).scannedCount =
      (ofPages pages).scannedCount + (ofPages others).scannedCount :=
    total_append Page.scannedCount pages others
  rw [decode_eq_ok_iff, hitems, hcount, hscanned, nextKey_ofPages_append pages h, List.mapM_append]
  constructor
  · intro hexists
    rcases hexists with ⟨items, hdecoded, rfl⟩
    obtain ⟨first, hfirst, hdecoded⟩ := bind_eq_ok_iff.1 hdecoded
    obtain ⟨second, hsecond, hdecoded⟩ := bind_eq_ok_iff.1 hdecoded
    cases hdecoded
    exact ⟨_, _, decode_eq_ok_iff.2 ⟨first, hfirst, rfl⟩,
      decode_eq_ok_iff.2 ⟨second, hsecond, rfl⟩, rfl⟩
  · intro hexists
    rcases hexists with ⟨first, second, hfirst, hsecond, rfl⟩
    obtain ⟨items, hitems, rfl⟩ := decode_eq_ok_iff.1 hfirst
    obtain ⟨others, hothers, rfl⟩ := decode_eq_ok_iff.1 hsecond
    exact ⟨items ++ others, by rw [hitems, hothers]; rfl, rfl⟩

end Merged

end IndexedSearch
