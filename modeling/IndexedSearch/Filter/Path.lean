import IndexedSearch.Filter.Condition
import IndexedSearch.Text.Separated

/-!
# Attribute paths

A path names an attribute, or a part nested in one, by one to four segments written with dots
between them. No segment is empty or holds a dot, so the written form determines the path.
-/

namespace IndexedSearch.Filter

/-- The greatest number of segments of a path. -/
def maxSegments : Nat := 4

/-- The character between two segments. -/
def segmentSeparator : Char := '.'

/-- A segment has at least one character and no separator. -/
def IsSegment (segment : List Char) : Prop :=
  segment ≠ [] ∧ segmentSeparator ∉ segment

/-- The path from an attribute down to a nested part of it. -/
structure Path where
  root : String
  inner : List String
  short : inner.length < maxSegments
  wellFormed : ∀ segment ∈ root :: inner, IsSegment segment.toList
deriving DecidableEq

namespace Path

/-- The segments, the name of the attribute first. -/
def segments (path : Path) : List String := path.root :: path.inner

/-- The path is an attribute and no part of one. Only such a path can name a key attribute. -/
def isTopLevel (path : Path) : Bool := path.inner.isEmpty

/-- The written form. -/
def text (path : Path) : String :=
  String.ofList (Text.join segmentSeparator (path.segments.map String.toList))

/-- The parts of a text that are the segments of its path, if it has the right number of them. -/
def ofParts? (parts : List (List Char))
    (free : ∀ part ∈ parts, segmentSeparator ∉ part) : Option Path :=
  match parts, free with
  | [], _ => none
  | root :: inner, free =>
    if h : inner.length < maxSegments ∧ ∀ part ∈ root :: inner, part ≠ [] then
      some {
        root := String.ofList root
        inner := inner.map String.ofList
        short := by simpa using h.1
        wellFormed := by
          intro segment hsegment
          rw [← List.map_cons, List.mem_map] at hsegment
          obtain ⟨part, hpart, rfl⟩ := hsegment
          simpa using ⟨h.2 part hpart, free part hpart⟩ }
    else none

/-- Reads the written form. -/
def ofText? (text : String) : Option Path :=
  ofParts? (Text.splitOn segmentSeparator text.toList) fun _ ↦ Text.not_mem_of_mem_splitOn

/-- The parts of a path are read back as that path, and nothing else is read as it. -/
theorem ofParts?_eq_some_iff {parts : List (List Char)}
    {free : ∀ part ∈ parts, segmentSeparator ∉ part} {path : Path} :
    ofParts? parts free = some path ↔ parts = path.segments.map String.toList := by
  obtain ⟨root, inner, short, wellFormed⟩ := path
  cases parts with
  | nil => simp [ofParts?, segments]
  | cons first rest =>
    rw [ofParts?]
    constructor
    · intro h
      split at h
      · simp only [Option.some.injEq, mk.injEq] at h
        obtain ⟨rfl, rfl⟩ := h
        simp [segments, Function.comp_def]
      · simp at h
    · intro h
      simp only [segments, List.map_cons, List.cons.injEq] at h
      obtain ⟨rfl, rfl⟩ := h
      rw [dif_pos]
      · simp [Function.comp_def]
      · refine ⟨by simpa using short, fun part hpart ↦ ?_⟩
        rw [← List.map_cons] at hpart
        obtain ⟨segment, hsegment, rfl⟩ := List.mem_map.1 hpart
        exact (wellFormed segment hsegment).1

/-- A text is read as a path just if the path is written as that text. -/
theorem ofText?_eq_some_iff {text : String} {path : Path} :
    ofText? text = some path ↔ path.text = text := by
  rw [ofText?, ofParts?_eq_some_iff, Path.text]
  constructor
  · intro h
    rw [← h, Text.join_splitOn, String.ofList_toList]
  · rintro rfl
    rw [String.toList_ofList]
    refine Text.splitOn_join _ (by simp [segments]) fun part hpart ↦ ?_
    obtain ⟨segment, hsegment, rfl⟩ := List.mem_map.1 hpart
    exact (path.wellFormed segment hsegment).2

@[simp] theorem ofText?_text (path : Path) : ofText? path.text = some path :=
  ofText?_eq_some_iff.2 rfl

/-- Reads the written form, or says that the text is no path. -/
def parse (text : String) : Except UsageError Path :=
  match ofText? text with
  | some path => return path
  | none => throw (.invalidPath text)

def toJson (path : Path) : Json := .string path.text

def ofJson? (json : Json) : Option Path := json.string?.bind ofText?

@[simp] theorem ofJson?_toJson (path : Path) : ofJson? path.toJson = some path :=
  ofText?_text path

end Path

end IndexedSearch.Filter
