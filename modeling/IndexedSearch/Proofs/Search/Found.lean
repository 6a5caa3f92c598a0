import IndexedSearch.Proofs.Search.Resuming
import IndexedSearch.Proofs.Store.Extent
import Mathlib.Algebra.Ring.Nat

/-!
# What a search has found

The output of a search puts the pages together that were read: their items one by one as documents,
the sums of their counters, and the key of the last one. Reading stops where its rule says so, with
the count that the output shows. The first item that cannot be decoded is the outcome of them all.
-/

namespace IndexedSearch

variable {decode : Wire.Item → Except DecodeError Json} {rule : StopRule} {pages : List Page}
  {output : Output}

/-- The output is put together from the pages that were read by a rule, and from nothing else. -/
structure Output.IsMergeOf (output : Output) (decode : Wire.Item → Except DecodeError Json)
    (rule : StopRule) (pages : List Page) : Prop where
  items : List.Forall₂ (fun item document ↦ decode item = .ok document)
    (pages.flatMap Page.items) output.items
  count : output.count = (pages.map fun page ↦ page.count.toNat).sum
  scannedCount : output.scannedCount = (pages.map fun page ↦ page.scannedCount.toNat).sum
  nextKey : ∃ last, pages.getLast? = some last ∧ output.nextKey = last.nextKey
  single : rule = .single → pages.length = 1
  exhaustive : rule = .exhaustive → output.isComplete = true
  minimum : ∀ count, rule = .minimum count → output.isComplete = true ∨ count ≤ output.count
  before : ∀ count, rule = .minimum count →
    pages.length = 1 ∨ (pages.dropLast.map fun page ↦ page.count.toNat).sum < count

namespace Merged

theorem total_eq_sum (counter : Page → UInt64) (pages : List Page) :
    total counter pages = (pages.map fun page ↦ (counter page).toNat).sum := by
  induction pages with
  | nil => rfl
  | cons page rest ih =>
    rw [List.map_cons, List.sum_cons, ← ih]
    rfl

/-- The pages can be decoded just if each of their items can. -/
theorem decode_ofPages_eq_ok_iff {decoder : Decoder} {tolerant : Bool} :
    (ofPages pages).decode decoder tolerant = .ok output ↔
      List.Forall₂ (fun item document ↦ decoder tolerant item = .ok document)
        (pages.flatMap Page.items) output.items ∧
      output.count = total Page.count pages ∧
      output.scannedCount = total Page.scannedCount pages ∧
      output.nextKey = Traversal.nextKey pages := by
  rw [decode_eq_ok_iff]
  simp only [mapM_eq_ok_iff]
  constructor
  · intro hexists
    obtain ⟨items, hitems, rfl⟩ := hexists
    exact ⟨hitems, rfl, rfl, rfl⟩
  · intro h
    obtain ⟨items, count, scannedCount, nextKey⟩ := output
    obtain ⟨hitems, rfl, rfl, rfl⟩ := h
    exact ⟨items, hitems, rfl⟩

/-- The first item that cannot be decoded fails them all. -/
theorem decode_eq_error_iff {merged : Merged} {decoder : Decoder} {tolerant : Bool}
    {error : DecodeError} :
    merged.decode decoder tolerant = .error error ↔
      merged.items.mapM (decoder tolerant) = .error error := by
  rw [decode, bind_eq_error_iff]
  simp [pure, Except.pure]

end Merged

/-- What a traversal has read and a decoder has decoded is put together. -/
theorem Traversal.Course.isMergeOf {request : Request} {answers : List Answer}
    {traversal : Traversal} {decoder : Decoder} {tolerant : Bool}
    (h : Course rule 0 request answers traversal) (hpages : traversal.result = .ok pages)
    (hdecode : (Merged.ofPages pages).decode decoder tolerant = .ok output) :
    output.IsMergeOf (decoder tolerant) rule pages := by
  obtain ⟨hitems, hcount, hscanned, hkey⟩ := Merged.decode_ofPages_eq_ok_iff.1 hdecode
  have hstops := h.stops hpages
  have hgoesOn := h.goesOn hpages
  have hcomplete : output.isComplete = true ↔ nextKey pages = none := by
    rw [Output.isComplete, hkey, Option.isNone_iff_eq_none]
  rw [Nat.zero_add, ← hcount, ← hcomplete] at hstops
  rw [Nat.zero_add, Merged.total_eq_sum] at hgoesOn
  constructor
  · exact hitems
  · rw [hcount, Merged.total_eq_sum]
  · rw [hscanned, Merged.total_eq_sum]
  · have hlast := List.getLast?_eq_some_getLast (h.ne_nil hpages)
    exact ⟨_, hlast, by rw [hkey, nextKey, hlast, Option.bind_some]⟩
  · rintro rfl
    exact hgoesOn.resolve_right (by simp [StopRule.isMet])
  · rintro rfl
    exact hstops.resolve_right (by simp [StopRule.isMet])
  · rintro count rfl
    exact hstops.imp_right of_decide_eq_true
  · rintro count rfl
    exact hgoesOn.imp_right fun hmet ↦ Nat.lt_of_not_le (of_decide_eq_false hmet)

namespace Search

variable {search : Search} {request : Request}

/-- With its request, a search decodes what a traversal has read. -/
theorem result_run (rule : StopRule) (answers : List Answer)
    (hrequest : search.request = .ok request) :
    (search.run rule answers).result = (do
      let pages ← (Traversal.run rule request answers).result.mapError SearchError.read
      ((Merged.ofPages pages).decode search.decoder request.isPartial).mapError .decode) ∧
    (search.run rule answers).calls = (Traversal.run rule request answers).calls ∧
    (search.run rule answers).unused = (Traversal.run rule request answers).unused := by
  rw [run, hrequest]
  exact ⟨rfl, rfl, rfl⟩

/-- A search gives the pages that it has read put together, or the error of their first item that
cannot be decoded. -/
theorem run_isMergeOf (search : Search) (rule : StopRule) (answers : List Answer) :
    (∀ output, (search.run rule answers).result = .ok output → ∃ request pages,
      search.request = .ok request ∧
      Traversal.AnsweredBy pages (search.run rule answers).calls
        (search.run rule answers).unused answers ∧
      output.IsMergeOf (search.decoder request.isPartial) rule pages) ∧
    ∀ request pages, search.request = .ok request →
      Traversal.AnsweredBy pages (search.run rule answers).calls
        (search.run rule answers).unused answers →
      (∃ item ∈ pages.flatMap Page.items, ∃ error,
        search.decoder request.isPartial item = .error error) →
      ∃ before item after error, pages.flatMap Page.items = before ++ item :: after ∧
        (∀ earlier ∈ before, ∃ document,
          search.decoder request.isPartial earlier = .ok document) ∧
        search.decoder request.isPartial item = .error error ∧
        (search.run rule answers).result = .error (.decode error) := by
  constructor
  · intro output houtput
    cases hrequest : search.request with
    | error error =>
      rw [run, hrequest] at houtput
      cases houtput
    | ok request =>
      obtain ⟨hresult, hcalls, hunused⟩ := result_run rule answers hrequest
      have hcourse : Traversal.Course rule 0 request answers (Traversal.run rule request answers) :=
        Traversal.course_resume rule 0 request answers
      rw [hresult, bind_eq_ok_iff] at houtput
      simp only [mapError_eq_ok_iff] at houtput
      obtain ⟨pages, hpages, hdecode⟩ := houtput
      refine ⟨request, pages, rfl, ?_, hcourse.isMergeOf hpages hdecode⟩
      rw [hcalls, hunused]
      exact hcourse.result_eq_ok_iff.1 hpages
  · intro request pages hrequest hread hfailing
    obtain ⟨hresult, hcalls, hunused⟩ := result_run rule answers hrequest
    have hcourse : Traversal.Course rule 0 request answers (Traversal.run rule request answers) :=
      Traversal.course_resume rule 0 request answers
    rw [hcalls, hunused] at hread
    have hpages := hcourse.result_eq_ok_iff.2 hread
    obtain ⟨item, hitem, error, herror⟩ := hfailing
    obtain ⟨first, hfirst⟩ := exists_mapM_eq_error hitem herror
    obtain ⟨before, item, after, hitems, hbefore, hitem⟩ := mapM_eq_error_iff.1 hfirst
    have hdecode : (Merged.ofPages pages).decode search.decoder request.isPartial = .error first :=
      Merged.decode_eq_error_iff.2 hfirst
    refine ⟨before, item, after, first, hitems, hbefore, hitem, ?_⟩
    rw [hresult, hpages]
    exact congrArg (Except.mapError SearchError.decode) hdecode

/-! ## An example -/

/-- A search of a table with one attribute that every item has to have. -/
def listing : Search :=
  ofTable (Table.ofSchema { Example.schema with attributes := [⟨"paid", none, .boolean, true⟩] })

/-- A page of one item, in front of more pages. -/
def pageOf (item : Wire.Item) : Page := ⟨[item], 1, 2, some [("customer", .string "c1")]⟩

def paid : Wire.Item := [("customer", .string "c1"), ("paid", .bool true)]

def unpaid : Wire.Item := [("customer", .string "c2")]

def listingRequest : Request :=
  ⟨"orders", none, none, none, none, [], [], none, none, none, none, none⟩

/-- Two pages are enough for two items, and the failure behind them is not met. -/
def enoughAnswers : List Answer := [.page (pageOf paid), .page (pageOf paid), .failure "refused"]

def paidTwice : Output :=
  ⟨[paid.toDocument, paid.toDocument], 2, 4, some [("customer", .string "c1")]⟩

def mixedAnswers : List Answer := [.page (pageOf paid), .page (pageOf unpaid)]

theorem request_listing : listing.request = .ok listingRequest := rfl

theorem result_listing :
    (listing.run (.minimum 2) enoughAnswers).result = .ok paidTwice := rfl

theorem answeredBy_listing :
    Traversal.AnsweredBy [pageOf paid, pageOf unpaid]
      (listing.run (.minimum 2) mixedAnswers).calls
      (listing.run (.minimum 2) mixedAnswers).unused mixedAnswers := ⟨rfl, rfl⟩

theorem decoder_listing :
    listing.decoder listingRequest.isPartial unpaid = .error (.missingAttribute "paid") := rfl

theorem run_isMergeOf_example :
    (∃ request pages, listing.request = .ok request ∧
      Traversal.AnsweredBy pages (listing.run (.minimum 2) enoughAnswers).calls
        (listing.run (.minimum 2) enoughAnswers).unused enoughAnswers ∧
      paidTwice.IsMergeOf (listing.decoder request.isPartial) (.minimum 2) pages) ∧
    ∃ before item after error,
      [pageOf paid, pageOf unpaid].flatMap Page.items = before ++ item :: after ∧
      (∀ earlier ∈ before, ∃ document,
        listing.decoder listingRequest.isPartial earlier = .ok document) ∧
      listing.decoder listingRequest.isPartial item = .error error ∧
      (listing.run (.minimum 2) mixedAnswers).result = .error (.decode error) :=
  ⟨(run_isMergeOf _ _ _).1 _ result_listing,
    (run_isMergeOf _ _ _).2 _ _ request_listing answeredBy_listing
      ⟨unpaid, by simp [pageOf], _, decoder_listing⟩⟩

end Search

end IndexedSearch
