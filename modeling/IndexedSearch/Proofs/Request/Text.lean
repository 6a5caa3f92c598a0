import IndexedSearch.Proofs.Json.Parts
import IndexedSearch.Proofs.Json.Reader
import IndexedSearch.Proofs.Outcome
import IndexedSearch.Request.Basic

/-!
# The text of a request

The compact text of a request is JSON text, and read as such it gives the request back. So no two
requests have the same text.
-/

namespace IndexedSearch

/-! ## Numbers -/

namespace Wire.Value

mutual

/-- The tagged form of a value holds its numbers as text. -/
theorem numbers_toJson (value : Value) : value.toJson.numbers = [] := by
  cases value with
  | list items =>
    simp only [toJson, Json.numbers, Json.numbersOfFields, numbersAll_toJsons items]
    rfl
  | map fields =>
    simp only [toJson, Json.numbers, Json.numbersOfFields, numbersOfFields_toJsonFields fields]
    rfl
  | stringSet texts =>
    simp only [toJson, Json.numbers, Json.numbersOfFields, Json.numbers_ofStrings]
    rfl
  | numberSet texts =>
    simp only [toJson, Json.numbers, Json.numbersOfFields, Json.numbers_ofStrings]
    rfl
  | _ => rfl

theorem numbersAll_toJsons (items : List Value) : Json.numbersAll (toJsons items) = [] := by
  cases items with
  | nil => rfl
  | cons item rest =>
    rw [toJsons, Json.numbersAll, numbers_toJson item, numbersAll_toJsons rest, List.append_nil]

theorem numbersOfFields_toJsonFields (fields : List (String × Value)) :
    Json.numbersOfFields (toJsonFields fields) = [] := by
  cases fields with
  | nil => rfl
  | cons field rest =>
    rw [toJsonFields, Json.numbersOfFields, numbers_toJson field.2,
      numbersOfFields_toJsonFields rest, List.append_nil]

end

end Wire.Value

namespace Request

variable {α : Type} {fields : List (String × Json)} {name : String} {read? : Json → Option α}

theorem lookup_tableField (name other : String) (write : α → Json) (entries : NameMap α) :
    (tableField name write entries).lookup other =
      if other = name ∧ entries ≠ [] then some (.object (entries.mapValues write)) else none := by
  rw [tableField]
  cases entries with
  | nil => simp
  | cons entry rest =>
    by_cases hname : other = name
    · simp [hname]
    · simp [List.lookup_cons, hname, beq_eq_false_iff_ne.2 hname]

/-- A table is read back, the empty one from its absence. -/
theorem defaulted?_of_lookup (write : α → Json) {entries : NameMap α}
    (h : fields.lookup name =
      if entries ≠ [] then some (.object (entries.mapValues write)) else none)
    (hread : ∀ part, read? (write part) = some part) :
    Json.defaulted? fields name (Json.mapOf? read?) [] = some entries := by
  rw [Json.defaulted?, h]
  by_cases hempty : entries = []
  · rw [hempty]
    rfl
  · rw [if_pos hempty]
    exact Json.mapOf?_mapValues hread entries

/-- The fields of the serialized form. -/
def written (request : Request) : List (String × Json) := request.toJson.fields?.getD []

/-- What is found under a name stands in the only field of that name. -/
theorem lookup_written (request : Request) (name : String) :
    request.written.lookup name =
      ((if name = "TableName" then some (.string request.table) else none).or <|
        (if name = "IndexName" then request.index.map .string else none).or <|
        (if name = "ConsistentRead" then request.consistentRead.map .bool else none).or <|
        (if name = "KeyConditionExpression" then request.keyCondition.map .string else none).or <|
        (if name = "FilterExpression" then request.filter.map .string else none).or <|
        (if name = "ExpressionAttributeNames" ∧ request.names ≠ [] then
          some (.object (request.names.mapValues .string)) else none).or <|
        (if name = "ExpressionAttributeValues" ∧ request.values ≠ [] then
          some (.object (request.values.mapValues Wire.Value.toJson)) else none).or <|
        (if name = "ProjectionExpression" then request.projection.map .string else none).or <|
        (if name = "Select" then request.select.map Select.toJson else none).or <|
        (if name = "Limit" then request.limit.map fun limit ↦ .number (.ofUInt32 limit)
          else none).or <|
        (if name = "ExclusiveStartKey" then request.startKey.map Wire.Item.toJson else none).or <|
        (if name = "ScanIndexForward" then request.forward.map .bool else none)) := by
  have htable : ([("TableName", Json.string request.table)] : List (String × Json)).lookup name =
      if name = "TableName" then some (.string request.table) else none := by
    by_cases hname : name = "TableName"
    · simp [hname]
    · simp [List.lookup_cons, hname, beq_eq_false_iff_ne.2 hname]
  simp only [written, toJson, Json.fields?, Option.getD_some, List.lookup_append, htable,
    Json.lookup_optionalField, lookup_tableField, Option.or_assoc]

theorem uint32?_ofUInt32 (limit : UInt32) :
    Json.uint32? (.number (.ofUInt32 limit)) = some limit := by
  have hlt : limit.toNat < Nat.pow 2 32 := limit.toNat_lt
  rw [Json.uint32?, Number.ofUInt32, Number.toUInt32?, if_pos hlt, UInt32.ofNat_toNat]

/-- The serialized form of a request is read back. -/
theorem ofJson?_toJson (request : Request) : ofJson? request.toJson = some request := by
  have hfields : request.toJson.fields? = some request.written := rfl
  have htable : Json.required? request.written "TableName" Json.string? = some request.table :=
    Json.required?_of_lookup .string (by simp [lookup_written]) rfl
  have hindex : Json.optional? request.written "IndexName" Json.string? = some request.index :=
    Json.optional?_of_lookup .string (by simp [lookup_written]) (fun _ ↦ rfl) (by simp)
  have hconsistent : Json.optional? request.written "ConsistentRead" Json.bool? =
      some request.consistentRead :=
    Json.optional?_of_lookup .bool (by simp [lookup_written]) (fun _ ↦ rfl) (by simp)
  have hkey : Json.optional? request.written "KeyConditionExpression" Json.string? =
      some request.keyCondition :=
    Json.optional?_of_lookup .string (by simp [lookup_written]) (fun _ ↦ rfl) (by simp)
  have hfilter : Json.optional? request.written "FilterExpression" Json.string? =
      some request.filter :=
    Json.optional?_of_lookup .string (by simp [lookup_written]) (fun _ ↦ rfl) (by simp)
  have hnames : Json.defaulted? request.written "ExpressionAttributeNames"
      (Json.mapOf? Json.string?) [] = some request.names :=
    defaulted?_of_lookup .string (by simp [lookup_written]) (fun _ ↦ rfl)
  have hvalues : Json.defaulted? request.written "ExpressionAttributeValues"
      (Json.mapOf? Wire.Value.ofJson?) [] = some request.values :=
    defaulted?_of_lookup Wire.Value.toJson (by simp [lookup_written]) Wire.Value.ofJson?_toJson
  have hprojection : Json.optional? request.written "ProjectionExpression" Json.string? =
      some request.projection :=
    Json.optional?_of_lookup .string (by simp [lookup_written]) (fun _ ↦ rfl) (by simp)
  have hselect : Json.optional? request.written "Select" Select.ofJson? = some request.select :=
    Json.optional?_of_lookup Select.toJson (by simp [lookup_written]) Select.ofJson?_toJson
      (by simp [Select.toJson])
  have hlimit : Json.optional? request.written "Limit" Json.uint32? = some request.limit :=
    Json.optional?_of_lookup (fun limit ↦ .number (.ofUInt32 limit)) (by simp [lookup_written])
      uint32?_ofUInt32 (by simp)
  have hstart : Json.optional? request.written "ExclusiveStartKey" Wire.Item.ofJson? =
      some request.startKey :=
    Json.optional?_of_lookup Wire.Item.toJson (by simp [lookup_written]) Wire.Item.ofJson?_toJson
      (by simp [Wire.Item.toJson])
  have hforward : Json.optional? request.written "ScanIndexForward" Json.bool? =
      some request.forward :=
    Json.optional?_of_lookup .bool (by simp [lookup_written]) (fun _ ↦ rfl) (by simp)
  exact bind_of_eq_some hfields <| bind_of_eq_some htable <| bind_of_eq_some hindex <|
    bind_of_eq_some hconsistent <| bind_of_eq_some hkey <| bind_of_eq_some hfilter <|
    bind_of_eq_some hnames <| bind_of_eq_some hvalues <| bind_of_eq_some hprojection <|
    bind_of_eq_some hselect <| bind_of_eq_some hlimit <| bind_of_eq_some hstart <|
    bind_of_eq_some hforward rfl

/-! ## The text -/

theorem numbersOfFields_tableField (name : String) (write : α → Json) (entries : NameMap α)
    (h : ∀ part, (write part).numbers = []) :
    Json.numbersOfFields (tableField name write entries) = [] := by
  have hentries : Json.numbersOfFields (entries.mapValues write) = [] := by
    rw [NameMap.mapValues]
    induction entries with
    | nil => rfl
    | cons entry rest ih => rw [List.map_cons, Json.numbersOfFields, h, ih, List.append_nil]
  rw [tableField]
  split
  · rfl
  · rw [Json.numbersOfFields, Json.numbers, hentries]
    rfl

/-- The only number of a request is its limit. -/
theorem numbers_toJson (request : Request) :
    request.toJson.numbers = request.limit.elim [] fun limit ↦ [.ofUInt32 limit] := by
  have hitem (key : Wire.Key) : key.toJson.numbers = [] :=
    Wire.Value.numbersOfFields_toJsonFields key
  have hnone {β : Type} (part? : Option β) : (part?.elim [] fun _ ↦ []) = ([] : List Number) := by
    cases part? <;> rfl
  simp only [toJson, Json.numbers, Json.numbersOfFields, Json.numbersOfFields_append,
    Json.numbersOfFields_optionalField, numbersOfFields_tableField _ Json.string _ fun _ ↦ rfl,
    numbersOfFields_tableField _ _ _ Wire.Value.numbers_toJson, hitem, Select.toJson, hnone,
    List.nil_append, List.append_nil]

/-- The text of a request is JSON text. -/
theorem isText_text (request : Request) : Json.IsText request.toJson request.text.toList := by
  rw [text, Json.text, String.toList_ofList]
  refine (Json.isValue_chars request.toJson fun number hnumber ↦ ?_).isText
  rw [numbers_toJson] at hnumber
  cases hlimit : request.limit with
  | none =>
    rw [hlimit] at hnumber
    cases hnumber
  | some limit =>
    rw [hlimit] at hnumber
    rw [List.mem_singleton.1 hnumber]
    exact Number.ofText?_text nofun

/-- The text of a request is JSON text of nothing but its serialized form, so whatever reads it
as JSON gets the request back. No two requests have the same text. -/
theorem text_readsBack :
    (∀ request, Json.IsText request.toJson request.text.toList ∧
      (∀ json, Json.IsText json request.text.toList → ofJson? json = some request) ∧
      (Json.ofText? request.text).bind ofJson? = some request) ∧
    Function.Injective text := by
  have hread (request : Request) : (Json.ofText? request.text).bind ofJson? = some request := by
    rw [Json.ofText?_of_isText request.isText_text, Option.bind_some, ofJson?_toJson]
  refine ⟨fun request ↦ ⟨request.isText_text, fun json hjson ↦ ?_, hread request⟩, ?_⟩
  · rw [← hread request, Json.ofText?_of_isText hjson, Option.bind_some]
  · intro request other htext
    apply Option.some.inj
    rw [← hread request, htext, hread other]

end Request

end IndexedSearch
