import IndexedSearch.Proofs.Filter.Serialized

/-!
# Paths and their texts

A path is written as its segments with dots between them. A text that is written so has one list of
segments, and it is read as the path with just these. Every other text is refused, and the error
names it. So reading undoes writing, and no two paths are written alike.
-/

namespace IndexedSearch.Filter

/-- One to four segments, none of which is empty or has a dot in it, give the text with a dot
between each two. -/
structure IsDotted (segments : List String) (text : String) : Prop where
  one_le : 1 ≤ segments.length
  le_four : segments.length ≤ 4
  ne_empty : ∀ segment ∈ segments, segment ≠ ""
  dot_notMem : ∀ segment ∈ segments, '.' ∉ segment.toList
  intercalate_eq : ".".intercalate segments = text

variable {segments others : List String} {text : String} {path : Path}

/-! ## Texts and their segments -/

namespace IsDotted

theorem toList_eq (h : IsDotted segments text) :
    text.toList = Text.join segmentSeparator (segments.map String.toList) := by
  rw [← h.intercalate_eq, String.toList_intercalate, Text.join_eq_intercalate]
  rfl

theorem isSegment (h : IsDotted segments text) :
    ∀ part ∈ segments.map String.toList, IsSegment part := by
  intro part hpart
  obtain ⟨segment, hsegment, rfl⟩ := List.mem_map.1 hpart
  exact ⟨mt String.toList_eq_nil_iff.1 (h.ne_empty segment hsegment), h.dot_notMem segment hsegment⟩

/-- Cutting the text at its dots gives the segments. -/
theorem splitOn_eq (h : IsDotted segments text) :
    Text.splitOn segmentSeparator text.toList = segments.map String.toList := by
  rw [h.toList_eq]
  apply Text.splitOn_join
  · exact mt List.map_eq_nil_iff.1 (List.ne_nil_of_length_pos h.one_le)
  · exact fun part hpart ↦ (h.isSegment part hpart).2

/-- A text has no other segments. -/
theorem unique (h : IsDotted segments text) (hothers : IsDotted others text) :
    segments = others := by
  apply (List.map_inj_right fun _ _ ↦ String.toList_injective).1
  rw [← h.splitOn_eq, ← hothers.splitOn_eq]

theorem isPathText (h : IsDotted segments text) : IsPathText text := by
  refine ⟨segments.map String.toList, ?_, ?_, h.isSegment, h.toList_eq⟩
  · rw [List.length_map]
    exact h.one_le
  · rw [List.length_map]
    exact h.le_four

end IsDotted

/-- A path is written as its segments with dots between them. -/
theorem Path.isDotted_text (path : Path) : IsDotted path.segments path.text where
  one_le := Nat.succ_pos _
  le_four := path.short
  ne_empty segment hsegment := mt String.toList_eq_nil_iff.2 (path.wellFormed segment hsegment).1
  dot_notMem segment hsegment := (path.wellFormed segment hsegment).2
  intercalate_eq := by
    apply String.toList_injective
    calc (".".intercalate path.segments).toList
      _ = ".".toList.intercalate (path.segments.map String.toList) := String.toList_intercalate
      _ = Text.join segmentSeparator (path.segments.map String.toList) :=
        (Text.join_eq_intercalate _ _).symm
      _ = path.text.toList := String.toList_ofList.symm

theorem isPathText_iff_exists_isDotted : IsPathText text ↔ ∃ segments, IsDotted segments text := by
  constructor
  · intro h
    obtain ⟨path, hpath⟩ := Path.exists_ofText?_iff.2 h
    rw [← Path.ofText?_eq_some_iff.1 hpath]
    exact ⟨path.segments, path.isDotted_text⟩
  · rintro ⟨segments, h⟩
    exact h.isPathText

/-! ## Reading a text -/

namespace Path

theorem parse_eq_ok_iff : parse text = .ok path ↔ ofText? text = some path := by
  rw [parse]
  split
  · rename_i found hfound
    rw [hfound, pure_eq_ok_iff, Option.some.injEq]
  · rename_i hnone
    rw [hnone]
    exact iff_of_false throw_ne_ok nofun

theorem exists_parse_eq_ok_iff : (∃ path, parse text = .ok path) ↔ IsPathText text := by
  simp only [parse_eq_ok_iff, exists_ofText?_iff]

/-- A text is read as a path, or is itself what the error names. -/
theorem parse_eq_error_iff {error : UsageError} :
    parse text = .error error ↔ ¬ IsPathText text ∧ UsageError.invalidPath text = error := by
  rw [← exists_ofText?_iff, parse]
  split
  · rename_i path hpath
    exact iff_of_false nofun fun h ↦ h.1 ⟨path, hpath⟩
  · rename_i hnone
    simp [hnone, throw_eq_error_iff]

/-- The text that a path is written as is read as that path. -/
theorem parse_text (path : Path) : parse path.text = .ok path :=
  parse_eq_ok_iff.2 (ofText?_text path)

theorem text_injective : Function.Injective Path.text := by
  intro path other htext
  apply Except.ok.inj
  rw [← parse_text path, htext, parse_text other]

/-- A text that is read is the text of the path, and the segments of the path are its only ones. -/
theorem text_eq_and_isDotted_iff_of_parse (h : parse text = .ok path) :
    path.text = text ∧ ∀ segments, IsDotted segments text ↔ path.segments = segments := by
  obtain rfl := ofText?_eq_some_iff.1 (parse_eq_ok_iff.1 h)
  refine ⟨rfl, fun segments ↦ ⟨path.isDotted_text.unique, ?_⟩⟩
  rintro rfl
  exact path.isDotted_text

/-- Exactly the texts that consist of segments are read as paths, each as a path that is written as
this text and has the only segments of it; the error for any other text names it. Every path is read
back from its text, and no two paths have the same text. -/
theorem parse_isDotted_and_parse_text :
    (∀ text,
      ((∃ path, parse text = .ok path) ↔ ∃ segments, IsDotted segments text) ∧
      (∀ path, parse text = .ok path →
        path.text = text ∧ ∀ segments, IsDotted segments text ↔ path.segments = segments) ∧
      ((¬ ∃ segments, IsDotted segments text) → parse text = .error (.invalidPath text))) ∧
    (∀ path, parse path.text = .ok path) ∧
    Function.Injective Path.text := by
  refine ⟨fun text ↦ ⟨?_, fun path ↦ text_eq_and_isDotted_iff_of_parse, fun hnone ↦ ?_⟩,
    parse_text, text_injective⟩
  · rw [exists_parse_eq_ok_iff, isPathText_iff_exists_isDotted]
  · rw [parse_eq_error_iff, isPathText_iff_exists_isDotted]
    exact ⟨hnone, rfl⟩

end Path

/-! ## An example -/

theorem isDotted_street : IsDotted ["address", "straße"] "address.straße" where
  one_le := by decide
  le_four := by decide
  ne_empty := by decide
  dot_notMem := by decide
  intercalate_eq := by decide

/-- A path of two segments is read and written, and a text with an empty segment is refused. -/
theorem Path.parse_isDotted_and_parse_text_example :
    IsDotted ["address", "straße"] "address.straße" ∧
    (∃ path, Path.parse "address.straße" = .ok path ∧ path.text = "address.straße" ∧
      path.segments = ["address", "straße"]) ∧
    (¬ ∃ segments, IsDotted segments "address..straße") ∧
    Path.parse "address..straße" = .error (.invalidPath "address..straße") := by
  obtain ⟨hread, hsegments, -⟩ := Path.parse_isDotted_and_parse_text.1 "address.straße"
  obtain ⟨hdoubled, -, hrefused⟩ := Path.parse_isDotted_and_parse_text.1 "address..straße"
  obtain ⟨path, hpath⟩ := hread.2 ⟨_, isDotted_street⟩
  have hnone : ¬ ∃ segments, IsDotted segments "address..straße" := by
    rw [← hdoubled]
    rintro ⟨_, hpath⟩
    cases hpath
  exact ⟨isDotted_street, ⟨path, hpath, (hsegments path hpath).1,
    ((hsegments path hpath).2 _).1 isDotted_street⟩, hnone, hrefused hnone⟩

end IndexedSearch.Filter
