import IndexedSearch.Proofs.Index.Naming
import IndexedSearch.Proofs.Output.Decoding
import IndexedSearch.Proofs.Request.Rearranged
import IndexedSearch.Proofs.Search.Found
import IndexedSearch.Proofs.Search.Sending

/-!
# Items with some of their attributes

Items are partial because the request asks for some attributes, or because the index that it names
does not carry all of them. Only the first is a reason for tolerance. An index that does not carry
all attributes is never chosen automatically; a search whose caller has chosen one, and asks for no
attributes by name, fails as soon as an item lacks a required attribute.
-/

namespace IndexedSearch

/-! ## What an index carries -/

namespace Schema

variable {schema : Schema} {name : String} {projection other : Projection}

/-- What the secondary indexes carry, by their names. -/
def projections (schema : Schema) : List (String × Projection) :=
  schema.globalIndexes.map (fun index ↦ (index.name, index.projection)) ++
    schema.localIndexes.map (fun index ↦ (index.name, index.projection))

theorem map_fst_projections (schema : Schema) :
    schema.projections.map Prod.fst = schema.indexNames := by
  rw [projections, List.map_append, List.map_map, List.map_map]
  rfl

/-- In an accepted schema, the name of an index says what it carries. -/
theorem IsAccepted.eq_of_mem_projections (h : schema.IsAccepted)
    (hprojection : (name, projection) ∈ schema.projections)
    (hother : (name, other) ∈ schema.projections) : projection = other := by
  have hnodup : (schema.projections.map Prod.fst).Nodup := by
    rw [map_fst_projections]
    exact h.nodup_indexNames
  exact congrArg Prod.snd (List.inj_on_of_nodup_map hnodup hprojection hother rfl)

end Schema

/-- The indexes that a schema offers carry all attributes. -/
theorem Index.Offers.mem_projections {schema : Schema} {rank : Rank} {descriptor : Descriptor}
    {name : String} (h : Offers schema rank descriptor) (hname : descriptor.sentName = some name) :
    (name, .all) ∈ schema.projections := by
  cases h with
  | primary => cases hname
  | @global _ index hindex hall =>
    cases hname
    rw [← hall]
    exact List.mem_append_left _ (List.mem_map_of_mem (List.mem_of_getElem? hindex))
  | @localIndex _ index hindex hall =>
    cases hname
    rw [← hall]
    exact List.mem_append_right _ (List.mem_map_of_mem (List.mem_of_getElem? hindex))

/-- With the choice left open, the index that a request names carries all attributes. -/
theorem Request.mem_projections_of_automatic {schema : Schema} {tree : Filter.Tree Filter.Clause}
    {options : Options} {request : Request} {name : String}
    (h : forFilter schema tree options = .ok request) (hautomatic : options.index = .automatic)
    (hname : request.index = some name) : (name, .all) ∈ schema.projections := by
  obtain ⟨plan, hplan, rfl⟩ := forFilter_eq_ok_iff.1 h
  rw [Plan.index_request hplan hautomatic] at hname
  obtain ⟨descriptor, hdescriptor, hname⟩ := Option.bind_eq_some_iff.1 hname
  obtain ⟨selection, hselection, rfl⟩ := Option.map_eq_some_iff.1 hdescriptor
  obtain ⟨rank, hoffers, -⟩ := Index.exists_offers_of_select? hselection
  exact hoffers.mem_projections hname

/-! ## Items that cannot be decoded -/

namespace Search

variable {search : Search} {request : Request} {rule : StopRule} {answers : List Answer}
  {error : DecodeError} {property : String}

/-- The error of the first item that cannot be decoded is the error of the search. -/
theorem result_eq_decode_error_iff (hrequest : search.request = .ok request) :
    (search.run rule answers).result = .error (.decode error) ↔
      ∃ pages, Traversal.AnsweredBy pages (search.run rule answers).calls
          (search.run rule answers).unused answers ∧
        ∃ before item after, pages.flatMap Page.items = before ++ item :: after ∧
          (∀ earlier ∈ before, ∃ document,
            search.decoder request.isPartial earlier = .ok document) ∧
          search.decoder request.isPartial item = .error error := by
  obtain ⟨hresult, hcalls, hunused⟩ := result_run rule answers hrequest
  have hcourse : Traversal.Course rule 0 request answers (Traversal.run rule request answers) :=
    Traversal.course_resume rule 0 request answers
  rw [hresult, hcalls, hunused, bind_eq_error_iff]
  simp only [mapError_eq_error_iff, mapError_eq_ok_iff, hcourse.result_eq_ok_iff,
    Merged.decode_eq_error_iff, mapM_eq_error_iff, SearchError.decode.injEq, exists_eq_right,
    reduceCtorEq, and_false, exists_false, false_or]
  rfl

theorem decoder_of_not_plain
    (hdecoder : search.table.decoder = Decoder.ofSchema search.table.schema)
    (hplain : search.plain = false) : search.decoder = Decoder.ofSchema search.table.schema := by
  rw [decoder, hplain, hdecoder]
  rfl

/-- What a search misses was missed by the decoder of a schema, and without tolerance. -/
theorem decoder_eq_missingAttribute_iff {item : Wire.Item} {tolerant : Bool}
    (hdecoder : search.table.decoder = Decoder.ofSchema search.table.schema) :
    search.decoder tolerant item = .error (.missingAttribute property) ↔
      search.plain = false ∧ tolerant = false ∧
        ∃ declared, Decoder.missingAttribute? search.table.schema item = some declared ∧
          declared.property = property := by
  rw [decoder, hdecoder]
  split
  · rename_i hplain
    simp [hplain, Decoder.plain, pure_ne_error]
  · rename_i hplain
    have hplain : search.plain = false := by simpa using hplain
    rw [Decoder.ofSchema_eq_missingAttribute_iff, and_iff_right hplain]

/-- With tolerance, an item is decoded if its attributes have their types. -/
theorem exists_decoder_tolerant {item : Wire.Item}
    (hdecoder : search.table.decoder = Decoder.ofSchema search.table.schema)
    (hadmits : Decoder.Admits search.table.schema item) :
    ∃ document, search.decoder true item = .ok document := by
  rw [decoder, hdecoder]
  split
  · exact ⟨_, rfl⟩
  · exact ⟨_, Decoder.ofSchema_tolerant_eq_ok_iff.2 ⟨hadmits, rfl⟩⟩

/-- A search that asks for some attributes decodes all items with the right types, whatever they
lack. -/
theorem result_ne_decode_error (hrequest : search.request = .ok request)
    (hdecoder : search.table.decoder = Decoder.ofSchema search.table.schema)
    (hprojection : request.projection.isSome = true)
    (hadmits : ∀ page, Answer.page page ∈ answers → ∀ item ∈ page.items,
      Decoder.Admits search.table.schema item) :
    (search.run rule answers).result ≠ .error (.decode error) := by
  intro herror
  obtain ⟨pages, hread, before, item, after, hitems, -, hitem⟩ :=
    (result_eq_decode_error_iff hrequest).1 herror
  have hmem : item ∈ pages.flatMap Page.items := by simp [hitems]
  obtain ⟨page, hpage, hitemOf⟩ := List.mem_flatMap.1 hmem
  have hanswer : Answer.page page ∈ answers := by
    rw [← hread.answers]
    exact List.mem_append_left _ (List.mem_map_of_mem hpage)
  obtain ⟨document, hdocument⟩ :=
    exists_decoder_tolerant hdecoder (hadmits page hanswer item hitemOf)
  rw [Request.isPartial, hprojection, hdocument] at hitem
  cases hitem

/-- A search that asks for all attributes misses those that the first item without a document
lacks. -/
theorem result_eq_missingAttribute_iff (hrequest : search.request = .ok request)
    (hdecoder : search.table.decoder = Decoder.ofSchema search.table.schema) :
    (search.run rule answers).result = .error (.decode (.missingAttribute property)) ↔
      search.plain = false ∧ request.projection = none ∧
        ∃ pages, Traversal.AnsweredBy pages (search.run rule answers).calls
            (search.run rule answers).unused answers ∧
          ∃ before item after, pages.flatMap Page.items = before ++ item :: after ∧
            (∀ earlier ∈ before, ∃ document,
              Decoder.ofSchema search.table.schema false earlier = .ok document) ∧
            ∃ declared, Decoder.missingAttribute? search.table.schema item = some declared ∧
              declared.property = property := by
  have hstrict : request.isPartial = false ↔ request.projection = none := by
    simp [Request.isPartial]
  rw [result_eq_decode_error_iff hrequest]
  simp only [decoder_eq_missingAttribute_iff hdecoder]
  constructor
  · intro hexists
    obtain ⟨pages, hread, before, item, after, hitems, hbefore, hplain, hpartial, hmissing⟩ :=
      hexists
    rw [hpartial, decoder_of_not_plain hdecoder hplain] at hbefore
    exact ⟨hplain, hstrict.1 hpartial, pages, hread, before, item, after, hitems, hbefore, hmissing⟩
  · intro h
    obtain ⟨hplain, hprojection, pages, hread, before, item, after, hitems, hbefore, hmissing⟩ := h
    have hpartial := hstrict.2 hprojection
    rw [← decoder_of_not_plain hdecoder hplain, ← hpartial] at hbefore
    exact ⟨pages, hread, before, item, after, hitems, hbefore, hplain, hpartial, hmissing⟩

/--
A search that asks for some attributes does not fail for any that are missing. Any other one fails
with the first item that lacks a required attribute, whatever index it names. An index that does not
carry all attributes is named only if the caller has chosen it.
-/
theorem missingAttribute_of_run (hschema : search.table.schema.IsAccepted)
    (hdecoder : search.table.decoder = Decoder.ofSchema search.table.schema)
    (hrequest : search.request = .ok request) (rule : StopRule) (answers : List Answer) :
    (request.projection.isSome = true →
      (∀ page, Answer.page page ∈ answers → ∀ item ∈ page.items,
        Decoder.Admits search.table.schema item) →
      ∀ error, (search.run rule answers).result ≠ .error (.decode error)) ∧
    (∀ name ∈ request.index, ∀ projection, (name, projection) ∈ search.table.schema.projections →
      projection ≠ .all → search.options.index ≠ .automatic) ∧
    ∀ property, (search.run rule answers).result = .error (.decode (.missingAttribute property)) ↔
      search.plain = false ∧ request.projection = none ∧
        ∃ pages, Traversal.AnsweredBy pages (search.run rule answers).calls
            (search.run rule answers).unused answers ∧
          ∃ before item after, pages.flatMap Page.items = before ++ item :: after ∧
            (∀ earlier ∈ before, ∃ document,
              Decoder.ofSchema search.table.schema false earlier = .ok document) ∧
            ∃ declared, Decoder.missingAttribute? search.table.schema item = some declared ∧
              declared.property = property := by
  refine ⟨?_, ?_, ?_⟩
  · intro hprojection hadmits error
    exact result_ne_decode_error hrequest hdecoder hprojection hadmits
  · intro name hname projection hprojection hrestricted hautomatic
    obtain ⟨tree, -, hmade⟩ := request_eq_ok_iff.1 hrequest
    have hall := Request.mem_projections_of_automatic hmade hautomatic hname
    exact hrestricted (hschema.eq_of_mem_projections hprojection hall)
  · intro property
    exact result_eq_missingAttribute_iff hrequest hdecoder

/-! ## An index that carries only keys -/

/-- A table with an index on the status, which does not carry the required attribute. -/
def statusSchema : Schema :=
  { name := "orders"
    key := ⟨"customer", none⟩
    globalIndexes := [⟨"byStatus", "status", none, .keysOnly⟩]
    localIndexes := []
    attributes := [⟨"customer", none, .string, false⟩, ⟨"status", none, .string, false⟩,
      ⟨"paid", none, .boolean, true⟩] }

def statusDeclarations : List Declaration :=
  [.hashKey "customer", .property ⟨"customer", none, .string, false⟩,
    .property ⟨"status", none, .string, false⟩, .property ⟨"paid", none, .boolean, true⟩,
    .globalIndex ⟨"byStatus", "status", none, .keysOnly⟩]

/-- A search through the index, shaped by some more calls. -/
def openOrders (calls : List SearchCall) : Search :=
  (ofTable (Table.ofSchema statusSchema)).applyAll
    (.usingIndex "byStatus" :: .filterStep (.filter "status" (.equality (.string "open"))) :: calls)

def openRequest : Request :=
  { table := "orders"
    index := some "byStatus"
    consistentRead := none
    keyCondition := some "#n0 = :v0"
    filter := none
    names := [("#n0", "status")]
    values := [(":v0", .string "open")]
    projection := none
    select := none
    limit := none
    startKey := none
    forward := none }

def selectedRequest : Request :=
  { openRequest with
    names := [("#n0", "status"), ("#n1", "status")]
    projection := some "#n1"
    select := some .specificAttributes }

/-- An item as the index has it. -/
def openItem : Wire.Item := [("customer", .string "c1"), ("status", .string "open")]

def openAnswers : List Answer := [.page ⟨[openItem], 1, 1, none⟩]

theorem isAccepted_statusSchema : statusSchema.IsAccepted := ⟨"orders", statusDeclarations, rfl⟩

theorem request_openOrders : (openOrders []).request = .ok openRequest := rfl

theorem request_openOrders_select :
    (openOrders [.select ["status"]]).request = .ok selectedRequest := rfl

theorem admits_openItem : Decoder.Admits statusSchema openItem :=
  (Decoder.ofSchema_tolerant_eq_ok_iff.1 rfl).1

theorem admits_openAnswers :
    ∀ page, Answer.page page ∈ openAnswers → ∀ item ∈ page.items,
      Decoder.Admits statusSchema item := by
  simp [openAnswers, admits_openItem]

theorem result_openOrders :
    ((openOrders []).run .single openAnswers).result =
      .error (.decode (.missingAttribute "paid")) := rfl

theorem missingAttribute_of_run_example :
    statusSchema.IsAccepted ∧
      (openOrders [.select ["status"]]).request = .ok selectedRequest ∧
      (∀ error, ((openOrders [.select ["status"]]).run .single openAnswers).result ≠
        .error (.decode error)) ∧
      (openOrders []).request = .ok openRequest ∧
      (openOrders []).options.index ≠ .automatic ∧
      ∃ pages, Traversal.AnsweredBy pages ((openOrders []).run .single openAnswers).calls
          ((openOrders []).run .single openAnswers).unused openAnswers ∧
        ∃ before item after, pages.flatMap Page.items = before ++ item :: after ∧
          (∀ earlier ∈ before, ∃ document,
            Decoder.ofSchema statusSchema false earlier = .ok document) ∧
          ∃ declared, Decoder.missingAttribute? statusSchema item = some declared ∧
            declared.property = "paid" := by
  have hselected := missingAttribute_of_run isAccepted_statusSchema rfl request_openOrders_select
    .single openAnswers
  have hopen := missingAttribute_of_run isAccepted_statusSchema rfl request_openOrders
    .single openAnswers
  obtain ⟨-, -, hmissing⟩ := (hopen.2.2 "paid").1 result_openOrders
  exact ⟨isAccepted_statusSchema, request_openOrders_select, hselected.1 rfl admits_openAnswers,
    request_openOrders, hopen.2.1 "byStatus" rfl .keysOnly List.mem_cons_self (by decide), hmissing⟩

/-- An item that an index with only keys gives back is missed for what the index does not carry. -/
theorem missingAttribute_of_keysOnly :
    statusSchema.IsAccepted ∧ (openOrders []).request = .ok openRequest ∧
      openRequest.index = some "byStatus" ∧ ("byStatus", .keysOnly) ∈ statusSchema.projections ∧
      (∀ page, Answer.page page ∈ openAnswers → ∀ item ∈ page.items,
        Decoder.Admits statusSchema item) ∧
      ((openOrders []).run .single openAnswers).result =
        .error (.decode (.missingAttribute "paid")) :=
  ⟨isAccepted_statusSchema, request_openOrders, rfl, List.mem_cons_self, admits_openAnswers,
    result_openOrders⟩

end Search

end IndexedSearch
