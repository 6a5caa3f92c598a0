/-!
# Text in separated parts

`splitOn` cuts a text at every occurrence of a separator, and joining the parts with the separator
undoes it. A text without separator is one part, so there is always at least one.
-/

namespace IndexedSearch.Text

/-- The parts of a text between the separators. -/
def splitOn (separator : Char) : List Char → List (List Char)
  | [] => [[]]
  | c :: rest =>
    if c = separator then [] :: splitOn separator rest
    else
      match splitOn separator rest with
      | [] => [[c]]
      | part :: parts => (c :: part) :: parts

/-- The parts, with a separator between each two. -/
def join (separator : Char) : List (List Char) → List Char
  | [] => []
  | [part] => part
  | part :: parts => part ++ separator :: join separator parts

theorem join_cons_cons (separator : Char) (part next : List Char) (parts : List (List Char)) :
    join separator (part :: next :: parts) = part ++ separator :: join separator (next :: parts) :=
  rfl

theorem join_eq_intercalate (separator : Char) (parts : List (List Char)) :
    join separator parts = [separator].intercalate parts := by
  induction parts with
  | nil => rfl
  | cons part rest ih =>
    cases rest with
    | nil => exact List.intercalate_singleton.symm
    | cons next rest =>
      rw [join_cons_cons, ih, List.intercalate_cons_cons, List.append_assoc]
      rfl

theorem splitOn_ne_nil (separator : Char) (text : List Char) : splitOn separator text ≠ [] := by
  cases text with
  | nil => simp [splitOn]
  | cons c rest =>
    unfold splitOn
    split
    · simp
    · split <;> simp

/-- Joining what was split gives the text back. -/
theorem join_splitOn (separator : Char) (text : List Char) :
    join separator (splitOn separator text) = text := by
  induction text with
  | nil => rfl
  | cons c rest ih =>
    have hne := splitOn_ne_nil separator rest
    unfold splitOn
    split
    · rename_i hc
      subst hc
      match hparts : splitOn c rest with
      | [] => exact absurd hparts hne
      | part :: parts => rw [join, ← hparts, ih, List.nil_append]; simp
    · match hparts : splitOn separator rest with
      | [] => exact absurd hparts hne
      | [part] => simpa [join, hparts] using ih
      | part :: next :: parts => simpa [join, hparts] using ih

/-- Splitting what was joined gives the parts back, if none holds a separator. -/
theorem splitOn_join (separator : Char) {parts : List (List Char)} (hne : parts ≠ [])
    (hfree : ∀ part ∈ parts, separator ∉ part) :
    splitOn separator (join separator parts) = parts := by
  have hpart (part : List Char) (h : separator ∉ part) (rest : List Char) :
      splitOn separator (part ++ separator :: rest) = part :: splitOn separator rest := by
    induction part with
    | nil => simp [splitOn]
    | cons c part ih =>
      simp only [List.mem_cons, not_or] at h
      simp [splitOn, Ne.symm h.1, ih h.2]
  have hlast (part : List Char) (h : separator ∉ part) : splitOn separator part = [part] := by
    induction part with
    | nil => rfl
    | cons c part ih =>
      simp only [List.mem_cons, not_or] at h
      simp [splitOn, Ne.symm h.1, ih h.2]
  induction parts with
  | nil => exact absurd rfl hne
  | cons part parts ih =>
    cases parts with
    | nil => exact hlast part (hfree part (by simp))
    | cons next parts =>
      rw [join, hpart part (hfree part (by simp)), ih (by simp) fun p hp ↦ hfree p (by simp [hp])]
      simp

/-- A part holds no separator. -/
theorem not_mem_of_mem_splitOn {separator : Char} {text part : List Char}
    (h : part ∈ splitOn separator text) : separator ∉ part := by
  induction text generalizing part with
  | nil => simp_all [splitOn]
  | cons c rest ih =>
    unfold splitOn at h
    split at h
    · rcases List.mem_cons.1 h with rfl | h
      · simp
      · exact ih h
    · rename_i hc
      split at h
      · simp_all [Ne.symm hc]
      · rename_i head tail hparts
        rcases List.mem_cons.1 h with rfl | h
        · have : separator ∉ head := ih (by simp [hparts])
          simp [this, Ne.symm hc]
        · exact ih (by simp [hparts, h])

end IndexedSearch.Text
