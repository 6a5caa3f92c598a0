import IndexedSearch.Index.Descriptor
import IndexedSearch.Proofs.Json.Forms
import IndexedSearch.Proofs.Outcome

/-!
# The serialized form of a catalog

Every record of a catalog is read back from its serialized form, whether or not the catalog passes
its checks. A part that is left out is found to be absent, and so is one that is written as null.
-/

namespace IndexedSearch

namespace Projection

theorem ofJson?_toJson (projection : Projection) : ofJson? projection.toJson = some projection := by
  cases projection with
  | including attributes => simp [toJson, ofJson?]
  | _ => rfl

theorem numbers_toJson (projection : Projection) : projection.toJson.numbers = [] := by
  cases projection with
  | including attributes =>
    simp [toJson, Json.numbers, Json.numbersOfFields, Json.numbers_ofStrings]
  | _ => rfl

end Projection

namespace KeyAttributes

theorem ofJson?_toJson (key : KeyAttributes) : ofJson? key.toJson = some key := by
  obtain ⟨hash, range⟩ := key
  cases range <;> rfl

theorem numbers_toJson (key : KeyAttributes) : key.toJson.numbers = [] := by
  obtain ⟨hash, range⟩ := key
  cases range <;> rfl

end KeyAttributes

namespace GlobalIndex

/-- The fields of the serialized form. -/
def written (index : GlobalIndex) : List (String × Json) := index.toJson.fields?.getD []

theorem ofJson?_toJson (index : GlobalIndex) : ofJson? index.toJson = some index := by
  have hfields : index.toJson.fields? = some index.written := rfl
  have hname : Json.required? index.written "name" Json.string? = some index.name := rfl
  have hhash : Json.required? index.written "hash" Json.string? = some index.hash := rfl
  have hrange : Json.optional? index.written "range" Json.string? = some index.range :=
    Json.optional?_of_lookup .string
      (by simp [written, toJson, Json.fields?, List.lookup_cons, List.lookup_append,
        Json.lookup_optionalField])
      (fun _ ↦ rfl) (by simp)
  have hprojection : Json.required? index.written "projection" Projection.ofJson? =
      some index.projection :=
    Json.required?_of_lookup Projection.toJson
      (by simp [written, toJson, Json.fields?, List.lookup_cons, List.lookup_append,
        Json.lookup_optionalField])
      index.projection.ofJson?_toJson
  exact bind_of_eq_some hfields <| bind_of_eq_some hname <| bind_of_eq_some hhash <|
    bind_of_eq_some hrange <| bind_of_eq_some hprojection rfl

theorem numbers_toJson (index : GlobalIndex) : index.toJson.numbers = [] := by
  obtain ⟨name, hash, range, projection⟩ := index
  cases range <;>
    simp [toJson, Json.optionalField, Json.numbers, Json.numbersOfFields,
      Projection.numbers_toJson]

end GlobalIndex

namespace LocalIndex

theorem ofJson?_toJson (index : LocalIndex) : ofJson? index.toJson = some index := by
  have hprojection : Json.required? (index.toJson.fields?.getD []) "projection"
      Projection.ofJson? = some index.projection :=
    Json.required?_of_lookup Projection.toJson rfl index.projection.ofJson?_toJson
  exact bind_of_eq_some rfl <| bind_of_eq_some rfl <| bind_of_eq_some rfl <|
    bind_of_eq_some hprojection rfl

theorem numbers_toJson (index : LocalIndex) : index.toJson.numbers = [] := by
  simp [toJson, Json.numbers, Json.numbersOfFields, Projection.numbers_toJson]

end LocalIndex

namespace Attribute

theorem ofJson?_toJson (declared : Attribute) : ofJson? declared.toJson = some declared := by
  obtain ⟨property, storedAs, type, required⟩ := declared
  cases storedAs <;> cases type <;> rfl

theorem numbers_toJson (declared : Attribute) : declared.toJson.numbers = [] := by
  obtain ⟨property, storedAs, type, required⟩ := declared
  cases storedAs <;> rfl

end Attribute

namespace Schema

/-- The fields of the serialized form. -/
def written (schema : Schema) : List (String × Json) := schema.toJson.fields?.getD []

theorem ofJson?_toJson (schema : Schema) : ofJson? schema.toJson = some schema := by
  have hfields : schema.toJson.fields? = some schema.written := rfl
  have hname : Json.required? schema.written "name" Json.string? = some schema.name := rfl
  have hkey : Json.required? schema.written "primary_key" KeyAttributes.ofJson? =
      some schema.key :=
    Json.required?_of_lookup KeyAttributes.toJson rfl schema.key.ofJson?_toJson
  have hglobal : Json.defaulted? schema.written "global_indexes"
      (Json.listOf? GlobalIndex.ofJson?) [] = some schema.globalIndexes :=
    Json.defaulted?_of_lookup (fun indexes ↦ .array (indexes.map GlobalIndex.toJson)) rfl
      (Json.listOf?_map GlobalIndex.ofJson?_toJson _)
  have hlocal : Json.defaulted? schema.written "local_indexes"
      (Json.listOf? LocalIndex.ofJson?) [] = some schema.localIndexes :=
    Json.defaulted?_of_lookup (fun indexes ↦ .array (indexes.map LocalIndex.toJson)) rfl
      (Json.listOf?_map LocalIndex.ofJson?_toJson _)
  have hattributes : Json.defaulted? schema.written "attributes"
      (Json.listOf? Attribute.ofJson?) [] = some schema.attributes :=
    Json.defaulted?_of_lookup (fun attributes ↦ .array (attributes.map Attribute.toJson)) rfl
      (Json.listOf?_map Attribute.ofJson?_toJson _)
  exact bind_of_eq_some hfields <| bind_of_eq_some hname <| bind_of_eq_some hkey <|
    bind_of_eq_some hglobal <| bind_of_eq_some hlocal <| bind_of_eq_some hattributes rfl

theorem numbers_toJson (schema : Schema) : schema.toJson.numbers = [] := by
  simp [toJson, Json.numbers, Json.numbersOfFields, KeyAttributes.numbers_toJson,
    Json.numbersAll_map_eq_nil GlobalIndex.numbers_toJson,
    Json.numbersAll_map_eq_nil LocalIndex.numbers_toJson,
    Json.numbersAll_map_eq_nil Attribute.numbers_toJson]

end Schema

namespace Index.Descriptor

theorem ofJson?_toJson (descriptor : Descriptor) :
    ofJson? descriptor.toJson = some descriptor := by
  obtain ⟨kind, name, hash, range⟩ := descriptor
  cases kind <;> cases name <;> cases range <;> rfl

theorem numbers_toJson (descriptor : Descriptor) : descriptor.toJson.numbers = [] := by
  obtain ⟨kind, name, hash, range⟩ := descriptor
  cases name <;> cases range <;> rfl

end Index.Descriptor

end IndexedSearch
