import IndexedSearch.Proofs.Json.Parts
import IndexedSearch.Proofs.Request.Making

/-!
# Filter trees in their serialized form

A filter tree comes back from its serialized form as it was, whatever its shape and its operands.
A form is refused if any text that stands for a path, at any depth, is no path.
-/

namespace IndexedSearch.Filter

/-! ## Texts of paths -/

/-- One to four segments, with dots between them. -/
def IsPathText (text : String) : Prop :=
  ∃ segments : List (List Char), 1 ≤ segments.length ∧ segments.length ≤ maxSegments ∧
    (∀ segment ∈ segments, IsSegment segment) ∧
    text.toList = Text.join segmentSeparator segments

/-- Exactly the texts of paths are read as paths. -/
theorem Path.exists_ofText?_iff {text : String} :
    (∃ path, Path.ofText? text = some path) ↔ IsPathText text := by
  simp only [Path.ofText?_eq_some_iff]
  constructor
  · rintro ⟨path, rfl⟩
    refine ⟨path.segments.map String.toList, ?_, ?_, ?_, ?_⟩
    · exact Nat.succ_pos _
    · rw [List.length_map]
      exact path.short
    · intro part hpart
      obtain ⟨segment, hsegment, rfl⟩ := List.mem_map.1 hpart
      exact path.wellFormed segment hsegment
    · rw [Path.text, String.toList_ofList]
  · rintro ⟨segments, hpos, hshort, hsegments, htext⟩
    obtain ⟨root, inner, rfl⟩ := List.exists_cons_of_length_pos hpos
    have hlist : (String.ofList root :: inner.map String.ofList).map String.toList =
        root :: inner := by
      simp [Function.comp_def]
    have hwellFormed : ∀ segment ∈ String.ofList root :: inner.map String.ofList,
        IsSegment segment.toList := by
      rw [← List.map_cons]
      intro segment hsegment
      obtain ⟨part, hpart, rfl⟩ := List.mem_map.1 hsegment
      rw [String.toList_ofList]
      exact hsegments part hpart
    refine ⟨⟨String.ofList root, inner.map String.ofList, ?_, hwellFormed⟩, ?_⟩
    · rw [List.length_map]
      exact hshort
    · rw [Path.text, Path.segments, hlist, ← htext, String.ofList_toList]

/-! ## Reading what was written -/

@[simp] theorem Condition.ofJson?_toJson (condition : Condition) :
    Condition.ofJson? condition.toJson = some condition := by
  cases condition with
  | equality value => rfl
  | operation operator operands => simp [Condition.toJson, Condition.ofJson?]

@[simp] theorem Clause.ofJson?_toJson (clause : Clause) :
    Clause.ofJson? clause.toJson = some clause := by
  simp [Clause.toJson, Clause.ofJson?]

namespace Entry

mutual

theorem ofJson?_toJson (entry : Entry Clause) : ofJson? entry.toJson = some entry := by
  cases entry with
  | or => rfl
  | group conditions =>
    simp [toJson, ofJson?, Json.required?, Json.listOf?_map Clause.ofJson?_toJson]
  | nested entries =>
    simp [toJson, ofJson?, ofFields?, ofJsons?_toJsons entries]

theorem ofJsons?_toJsons (entries : List (Entry Clause)) :
    ofJsons? (toJsons entries) = some entries := by
  cases entries with
  | nil => rfl
  | cons entry rest => simp [toJsons, ofJsons?, ofJson?_toJson entry, ofJsons?_toJsons rest]

end

end Entry

namespace Tree

/-- The serialized form of a tree is read back. -/
theorem ofJson?_toJson (tree : Tree Clause) : ofJson? tree.toJson = some tree := by
  simp [toJson, ofJson?, Entry.ofFields?, Entry.ofJsons?_toJsons tree]

end Tree

/-! ## Paths in a form -/

/-- A text that stands for a path in a group or in a nested tree, at any depth. Nothing is asked of
the other parts of the form. -/
inductive HasPathText (text : String) : Json → Prop
  | group {fields group : List (String × Json)} {entries conditions behind : List Json}
    (hentries : fields.lookup "entries" = some (.array entries))
    (hgroup : .object [("Group", .object group)] ∈ entries)
    (hconditions : group.lookup "conditions" = some (.array conditions))
    (hclause : .array (.string text :: behind) ∈ conditions) : HasPathText text (.object fields)
  | nested {fields : List (String × Json)} {entries : List Json} {inner : Json}
    (hentries : fields.lookup "entries" = some (.array entries))
    (hnested : .object [("Nested", inner)] ∈ entries)
    (h : HasPathText text inner) : HasPathText text (.object fields)

/-- Of the fields of a form, the first one named for the entries is read. -/
theorem Entry.ofFields?_of_lookup {fields : List (String × Json)} {entries : List Json}
    (h : fields.lookup "entries" = some (.array entries)) :
    Entry.ofFields? fields = Entry.ofJsons? entries := by
  induction fields with
  | nil => cases h
  | cons field rest ih =>
    obtain ⟨name, value⟩ := field
    by_cases hname : name = "entries"
    · rw [hname, List.lookup_cons_self, Option.some.injEq] at h
      rw [h, hname, Entry.ofFields?, if_pos rfl]
    · rw [List.lookup_cons, beq_eq_false_iff_ne.2 (Ne.symm hname)] at h
      rw [← ih h]
      cases value <;> rw [Entry.ofFields?, if_neg hname] <;> exact nofun

theorem Entry.ofJsons?_eq_mapM (forms : List Json) :
    Entry.ofJsons? forms = forms.mapM Entry.ofJson? := by
  induction forms with
  | nil => rfl
  | cons form rest ih =>
    rw [Entry.ofJsons?, List.mapM_cons, ih]

/-- A clause is read only with the text of a path. -/
theorem Clause.isPathText_of_ofJson? {text : String} {behind : List Json} {clause : Clause}
    (h : Clause.ofJson? (.array (.string text :: behind)) = some clause) : IsPathText text := by
  match behind, h with
  | [condition], h =>
    rw [Clause.ofJson?, Option.bind_eq_bind, Option.bind_eq_some_iff] at h
    obtain ⟨path, hpath, -⟩ := h
    exact Path.exists_ofText?_iff.1 ⟨path, hpath⟩

/-- A nested entry is read only with the tree in it. -/
theorem Entry.exists_of_nested {inner : Json} {entry : Entry Clause}
    (h : Entry.ofJson? (.object [("Nested", inner)]) = some entry) :
    ∃ tree, Tree.ofJson? inner = some tree := by
  cases inner with
  | object fields =>
    rw [Entry.ofJson?, Option.map_eq_some_iff] at h
    obtain ⟨entries, hentries, -⟩ := h
    exact ⟨entries, hentries⟩
  | _ => cases h

/-- A text that stands for a path in a form that is read is the text of a path. -/
theorem HasPathText.isPathText {text : String} {json : Json} {tree : Tree Clause}
    (h : HasPathText text json) (hread : Tree.ofJson? json = some tree) : IsPathText text := by
  induction h generalizing tree with
  | group hentries hgroup hconditions hclause =>
    rw [Tree.ofJson?, Entry.ofFields?_of_lookup hentries, Entry.ofJsons?_eq_mapM] at hread
    obtain ⟨entry, hentry⟩ := exists_of_mem_mapM hread hgroup
    rw [Entry.ofJson?, Json.required?, hconditions, Option.bind_some, Option.map_eq_some_iff]
      at hentry
    obtain ⟨clauses, hclauses, -⟩ := hentry
    obtain ⟨clause, hread⟩ := exists_of_mem_mapM hclauses hclause
    exact Clause.isPathText_of_ofJson? hread
  | nested hentries hnested h ih =>
    rw [Tree.ofJson?, Entry.ofFields?_of_lookup hentries, Entry.ofJsons?_eq_mapM] at hread
    obtain ⟨entry, hentry⟩ := exists_of_mem_mapM hread hnested
    obtain ⟨inner, hinner⟩ := Entry.exists_of_nested hentry
    exact ih hinner

mutual

/-- The paths of an entry stand for paths in every form that has the entry. -/
theorem hasPathText_of_mem_leaves {fields : List (String × Json)} {forms : List Json}
    {entry : Entry Clause} {clause : Clause}
    (hentries : fields.lookup "entries" = some (.array forms)) (hentry : entry.toJson ∈ forms)
    (h : clause ∈ entry.leaves) : HasPathText clause.path.text (.object fields) := by
  cases entry with
  | or => cases h
  | group conditions =>
    exact .group hentries hentry rfl (List.mem_map.2 ⟨clause, h, rfl⟩)
  | nested entries =>
    exact .nested hentries hentry
      (hasPathText_of_mem_leavesAll rfl (List.Subset.refl (Entry.toJsons entries)) h)

theorem hasPathText_of_mem_leavesAll {fields : List (String × Json)} {forms : List Json}
    {entries : List (Entry Clause)} {clause : Clause}
    (hentries : fields.lookup "entries" = some (.array forms))
    (hforms : Entry.toJsons entries ⊆ forms) (h : clause ∈ Entry.leavesAll entries) :
    HasPathText clause.path.text (.object fields) := by
  cases entries with
  | nil => cases h
  | cons entry rest =>
    obtain ⟨hentry, hrest⟩ := List.cons_subset.1 hforms
    rcases List.mem_append.1 h with h | h
    · exact hasPathText_of_mem_leaves hentries hentry h
    · exact hasPathText_of_mem_leavesAll hentries hrest h

end

/-- In the form of a tree, the path of every leaf stands for a path. -/
theorem Tree.hasPathText_toJson {tree : Tree Clause} {clause : Clause} (h : clause ∈ tree.leaves) :
    HasPathText clause.path.text tree.toJson :=
  hasPathText_of_mem_leavesAll rfl (List.Subset.refl (Entry.toJsons tree)) h

/-- A tree comes back from its serialized form, a form is refused if a text that stands for a path
is none, and a request for a copy of a tree is the one for the tree, or fails the same way. -/
theorem Tree.serialized_readsBack :
    (∀ tree : Tree Clause, Tree.ofJson? tree.toJson = some tree) ∧
    (∀ text json, HasPathText text json → ¬ IsPathText text → Tree.ofJson? json = none) ∧
    ∀ tree copy, Tree.ofJson? tree.toJson = some copy → ∀ schema options,
      Request.forFilter schema copy options = Request.forFilter schema tree options := by
  refine ⟨Tree.ofJson?_toJson, fun text json htext hpath ↦ ?_, ?_⟩
  · apply Option.eq_none_iff_forall_ne_some.2
    intro tree hread
    exact hpath (htext.isPathText hread)
  · intro tree copy hcopy schema options
    rw [Tree.ofJson?_toJson, Option.some.injEq] at hcopy
    rw [hcopy]

/-! ## An example -/

/-- A form with `a..b` for a path in a nested tree. -/
def emptySegmentForm : Json :=
  let clause : Json := .array [.string "a..b", .object [("Equality", .null)]]
  let group : Json := .object [("Group", .object [("conditions", .array [clause])])]
  let nested : Json := .object [("Nested", .object [("entries", .array [.string "Or", group])])]
  .object [("entries", .array [group, nested])]

theorem hasPathText_emptySegmentForm : HasPathText "a..b" emptySegmentForm :=
  .nested rfl (.tail _ (.head _)) (.group rfl (.tail _ (.head _)) rfl (.head _))

theorem not_isPathText_emptySegment : ¬ IsPathText "a..b" := by
  rw [← Path.exists_ofText?_iff]
  rintro ⟨path, hpath⟩
  cases hpath

theorem Tree.serialized_readsBack_example :
    Tree.ofJson? emptySegmentForm = none ∧
    ∃ copy, Tree.ofJson? Example.tree.toJson = some copy ∧
      Request.forFilter Example.schema copy Example.options =
        Request.forFilter Example.schema Example.tree Example.options :=
  ⟨Tree.serialized_readsBack.2.1 _ _ hasPathText_emptySegmentForm not_isPathText_emptySegment,
    Example.tree, Tree.serialized_readsBack.1 _,
    Tree.serialized_readsBack.2.2 _ _ (Tree.serialized_readsBack.1 _) _ _⟩

end IndexedSearch.Filter
