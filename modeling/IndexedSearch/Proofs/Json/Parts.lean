import IndexedSearch.Json.Record

/-!
# Parts of arrays and records

The items of an array are read back one by one. What is written for a part of a record is found
under its name, and is read back as that part.
-/

namespace IndexedSearch.Json

variable {α : Type} {fields : List (String × Json)} {name : String} {read? : Json → Option α}

theorem listOf?_map {write : α → Json} (hread : ∀ item, read? (write item) = some item)
    (items : List α) : (array (items.map write)).listOf? read? = some items := by
  rw [listOf?, array?, Option.bind_some]
  induction items with
  | nil => rfl
  | cons item rest ih =>
    simp only [List.map_cons, List.mapM_cons, hread, ih, Option.bind_eq_bind, Option.bind_some,
      Option.pure_def]

theorem lookup_optionalField (name other : String) (write : α → Json) (part? : Option α) :
    (optionalField name write part?).lookup other =
      if other = name then part?.map write else none := by
  cases part? with
  | none => simp [optionalField]
  | some part =>
    rw [optionalField, List.lookup_cons]
    by_cases hname : other = name
    · simp [hname]
    · simp [hname, beq_eq_false_iff_ne.2 hname]

theorem required?_of_lookup (write : α → Json) {part : α}
    (h : fields.lookup name = some (write part)) (hread : read? (write part) = some part) :
    required? fields name read? = some part := by
  rw [required?, h, Option.bind_some, hread]

/-- An optional part is read back if it is not written as null. -/
theorem optional?_of_lookup (write : α → Json) {part? : Option α}
    (h : fields.lookup name = part?.map write) (hread : ∀ part, read? (write part) = some part)
    (hnull : ∀ part, write part ≠ null) :
    optional? fields name read? = some part? := by
  cases part? with
  | none => rw [optional?, h, Option.map_none]
  | some part =>
    rw [optional?, h, Option.map_some]
    split
    · rename_i hnone
      cases hnone
    · rename_i hsome
      exact absurd (Option.some.inj hsome) (hnull part)
    · rename_i hsome
      rw [← Option.some.inj hsome, hread, Option.map_some]

/-- The values of a map are read back under their names. -/
theorem mapOf?_mapValues {write : α → Json} (hread : ∀ part, read? (write part) = some part)
    (entries : NameMap α) :
    (object (entries.mapValues write)).mapOf? read? = some entries := by
  rw [mapOf?, fields?, Option.bind_some, NameMap.mapValues]
  induction entries with
  | nil => rfl
  | cons entry rest ih =>
    simp only [List.map_cons, List.mapM_cons, hread, ih, Option.map_some, Option.bind_eq_bind,
      Option.bind_some, Option.pure_def]

end IndexedSearch.Json
