import IndexedSearch.Proofs.Expression.Numbering
import IndexedSearch.Proofs.Request.Making
import IndexedSearch.Proofs.Request.PlaceholderTable

/-!
# Reading the expressions of a request

The store reads the text of an expression by its grammar and looks its placeholders up in the tables
that come with it. From the request of a plan it reads the key condition and the filter of the plan.
-/

namespace IndexedSearch

open Expression (Atom Counter Hold Level Numbered Resolved Written numberAtoms)

namespace Request

/-- The level that a text stands for, read with the tables of a request. -/
def expression? (request : Request) (text : String) : Option (Level Resolved) :=
  (Level.ofText? text).bind (Level.traverse? (Written.resolve? request.names request.values))

end Request

namespace Expression

theorem exists_of_mem_numberAtoms {ν ω : Type} {counter : Counter} {atoms : List (Atom ν ω)}
    {numbered : Numbered} (h : numbered ∈ numberAtoms counter atoms) :
    ∃ atom ∈ atoms, ∃ next, numbered = atom.number next := by
  induction atoms generalizing counter with
  | nil => cases h
  | cons atom rest ih =>
    rcases List.mem_cons.1 h with rfl | h
    · exact ⟨atom, List.mem_cons_self, counter, rfl⟩
    · obtain ⟨other, hother, next, rfl⟩ := ih h
      exact ⟨other, List.mem_cons_of_mem _ hother, next, rfl⟩

/-- Numbering does not change how many names and operands there are. -/
theorem Atom.IsValid.written_number {ν ω : Type} {atom : Atom ν ω} (h : atom.IsValid)
    (counter : Counter) : (atom.number counter).written.IsValid := by
  rcases h with ⟨hpath, harity⟩
  constructor
  · simpa [Numbered.written, Atom.number, List.range'_eq_nil_iff] using hpath
  · simpa [Numbered.written, Atom.number] using harity

/-- The text of a numbered level is read as the level, with tables that hold its atoms. -/
theorem Level.read_text_number {level : Level Resolved}
    (hvalid : ∀ atom ∈ level.atoms, atom.IsValid) {names : NameMap String}
    {values : NameMap Wire.Value} {counter : Counter}
    (h : Hold names values counter level.atoms) :
    (Level.ofText? (level.number counter).text).bind
      (Level.traverse? (Written.resolve? names values)) = some level := by
  have hwritten : ∀ atom ∈ ((level.number counter).map Numbered.written).atoms, atom.IsValid := by
    intro written hwritten
    rw [Level.atoms_map, Level.atoms_number] at hwritten
    obtain ⟨numbered, hnumbered, rfl⟩ := List.mem_map.1 hwritten
    obtain ⟨atom, hatom, next, rfl⟩ := exists_of_mem_numberAtoms hnumbered
    exact (hvalid atom hatom).written_number next
  have hread : Level.ofText? (level.number counter).text =
      some ((level.number counter).map Numbered.written) := by
    rw [Level.ofText?, Level.scan_text, Level.ofTokens?_tokens hwritten]
  rw [hread, Option.bind_some, level.traverse?_number h]

end Expression

namespace Plan

variable {plan : Plan} (schema : Schema) (options : Options)

/-- The tables of a request hold the atoms of its plan. -/
theorem hold_atoms (plan : Plan) :
    Hold (plan.request schema options).names (plan.request schema options).values Counter.start
      plan.atoms := by
  have hnames := tabulates_placeholderTable Expression.namePlaceholder_injective plan.names
  rw [names, Expression.tabulates_append] at hnames
  exact ⟨hnames.1, tabulates_placeholderTable Expression.valuePlaceholder_injective plan.values⟩

/-- A level whose atoms are atoms of the plan is read from its text. -/
theorem expression?_level (hvalid : ∀ atom ∈ plan.atoms, atom.IsValid) {level : Level Resolved}
    {before after : List Resolved} (hatoms : plan.atoms = before ++ (level.atoms ++ after)) :
    (plan.request schema options).expression?
      (level.number (Counter.start.after before)).text = some level := by
  have hhold := plan.hold_atoms schema options
  rw [hatoms, Expression.hold_append, Expression.hold_append] at hhold
  apply Level.read_text_number _ hhold.2.1
  intro atom hatom
  apply hvalid
  rw [hatoms]
  exact List.mem_append_right _ (List.mem_append_left _ hatom)

/-- The key condition of a request is read as that of its plan, and absent if the plan has none. -/
theorem map_expression?_keyCondition (hvalid : ∀ atom ∈ plan.atoms, atom.IsValid) :
    (plan.request schema options).keyCondition.map (plan.request schema options).expression? =
      plan.key.map some := by
  have htext : (plan.request schema options).keyCondition =
      plan.key.map fun level ↦ (level.number Counter.start).text := by
    rw [request, numberedKey, Option.map_map]
    rfl
  rw [htext]
  cases hkey : plan.key with
  | none => rfl
  | some level =>
    have hatoms : plan.atoms = [] ++ (level.atoms ++ plan.filterAtoms) := by
      rw [atoms, keyAtoms, hkey]
      rfl
    have hstart : Counter.start.after ([] : List Resolved) = Counter.start := rfl
    rw [← hstart, Option.map_some, Option.map_some, Option.map_some,
      expression?_level schema options hvalid hatoms]

/-- The filter expression of a request is read as the filter of its plan, and absent if the plan has
none. -/
theorem map_expression?_filter (hvalid : ∀ atom ∈ plan.atoms, atom.IsValid) :
    (plan.request schema options).filter.map (plan.request schema options).expression? =
      plan.filter.map some := by
  have htext : (plan.request schema options).filter =
      plan.filter.map fun level ↦ (level.number (Counter.start.after plan.keyAtoms)).text := by
    rw [request, numberedFilter, Option.map_map]
    rfl
  rw [htext]
  cases hfilter : plan.filter with
  | none => rfl
  | some level =>
    have hatoms : plan.atoms = plan.keyAtoms ++ (level.atoms ++ []) := by
      rw [atoms, filterAtoms, hfilter, List.append_nil]
      rfl
    rw [Option.map_some, Option.map_some, Option.map_some,
      expression?_level schema options hvalid hatoms]

end Plan

end IndexedSearch
