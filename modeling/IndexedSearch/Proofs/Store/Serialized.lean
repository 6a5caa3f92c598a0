import IndexedSearch.Proofs.Catalog.Serialized
import IndexedSearch.Proofs.Request.Text
import IndexedSearch.Store.Page

/-!
# The serialized form of a page

A page is read back from its serialized form, together with its counts, and with a key to go on from
that is absent, empty or not. The two counts are the only numbers of the form, as stored values hold
their numbers as text. The records of a catalog have no numbers at all.
-/

namespace IndexedSearch

namespace Page

/-- The fields of the serialized form. -/
def written (page : Page) : List (String × Json) := page.toJson.fields?.getD []

theorem uint64?_ofUInt64 (word : UInt64) : Json.uint64? (.number (.ofUInt64 word)) = some word := by
  rw [Json.uint64?, Number.ofUInt64, Number.toUInt64?, UInt64.ofNat_toNat]

theorem ofJson?_toJson (page : Page) : ofJson? page.toJson = some page := by
  have hfields : page.toJson.fields? = some page.written := rfl
  have hitems : Json.defaulted? page.written "Items" (Json.listOf? Wire.Item.ofJson?) [] =
      some page.items :=
    Json.defaulted?_of_lookup (fun items ↦ .array (items.map Wire.Item.toJson)) rfl
      (Json.listOf?_map Wire.Item.ofJson?_toJson _)
  have hcount : Json.required? page.written "Count" Json.uint64? = some page.count :=
    Json.required?_of_lookup (fun word ↦ .number (.ofUInt64 word)) rfl (uint64?_ofUInt64 _)
  have hscanned : Json.required? page.written "ScannedCount" Json.uint64? =
      some page.scannedCount :=
    Json.required?_of_lookup (fun word ↦ .number (.ofUInt64 word)) rfl (uint64?_ofUInt64 _)
  have hnext : Json.optional? page.written "LastEvaluatedKey" Wire.Item.ofJson? =
      some page.nextKey :=
    Json.optional?_of_lookup Wire.Item.toJson
      (by simp [written, toJson, Json.fields?, List.lookup_cons, Json.lookup_optionalField])
      Wire.Item.ofJson?_toJson (by simp [Wire.Item.toJson])
  exact bind_of_eq_some hfields <| bind_of_eq_some hitems <| bind_of_eq_some hcount <|
    bind_of_eq_some hscanned <| bind_of_eq_some hnext rfl

theorem numbers_toJson (page : Page) :
    page.toJson.numbers = [.ofUInt64 page.count, .ofUInt64 page.scannedCount] := by
  have hitem (item : Wire.Item) : item.toJson.numbers = [] :=
    Wire.Value.numbersOfFields_toJsonFields item
  have hnext : (page.nextKey.elim [] fun key ↦ key.toJson.numbers) = [] := by
    cases page.nextKey with
    | none => rfl
    | some key => exact hitem key
  rw [toJson, Json.numbers, Json.numbersOfFields_append, Json.numbersOfFields_optionalField, hnext]
  simp [Json.numbers, Json.numbersOfFields, Json.numbersAll_map_eq_nil hitem]

theorem readsBack : Json.ReadsBack toJson ofJson? :=
  Json.readsBack_of_numbers ofJson?_toJson fun page number hnumber ↦ by
    rw [numbers_toJson] at hnumber
    have hword : ∃ word, number = .ofUInt64 word := by
      obtain rfl | hnumber := List.mem_cons.1 hnumber
      · exact ⟨page.count, rfl⟩
      · exact ⟨page.scannedCount, List.mem_singleton.1 hnumber⟩
    obtain ⟨word, rfl⟩ := hword
    exact Number.ofText?_text nofun

end Page

/-- The serialized forms of tables, of index descriptors and of pages are read back, and so are
their texts. No catalog has to pass a check for that, and a page may have any items and counts. -/
theorem readsBack_catalog_and_page :
    Json.ReadsBack Schema.toJson Schema.ofJson? ∧
      Json.ReadsBack Index.Descriptor.toJson Index.Descriptor.ofJson? ∧
      Json.ReadsBack Page.toJson Page.ofJson? := by
  have hschema : Json.ReadsBack Schema.toJson Schema.ofJson? :=
    Json.readsBack_of_numbers Schema.ofJson?_toJson fun schema number hnumber ↦ by
      rw [schema.numbers_toJson] at hnumber
      cases hnumber
  have hdescriptor : Json.ReadsBack Index.Descriptor.toJson Index.Descriptor.ofJson? :=
    Json.readsBack_of_numbers Index.Descriptor.ofJson?_toJson fun descriptor number hnumber ↦ by
      rw [descriptor.numbers_toJson] at hnumber
      cases hnumber
  exact ⟨hschema, hdescriptor, Page.readsBack⟩

end IndexedSearch
