import IndexedSearch.Proofs.Filter.Places
import IndexedSearch.Proofs.Request.Writer

/-!
# Nothing is missing when conditions are written

If no condition of a filter has too few or too many operands, its conditions can be written in one
go: every operand that is asked for is there, and every place that the key condition is read from
holds a condition. What is written are the expressions of the request, with the same table of
operands, and with the same table of names up to those of the projection. Each condition that is
written adds its operands to their table, in order, and no others.
-/

namespace IndexedSearch

open Expression (Atom Connective Counter Factor Level Numbered Resolved namePlaceholder
  valuePlaceholder)
open IndexedSearch.Filter (Clause Entry Position Term)

/-! ## Texts of factors -/

namespace Expression

theorem Numbered.text_ne_empty (atom : Numbered) : atom.text ≠ "" := by
  unfold Numbered.text
  cases atom.operator <;> simp [Filter.Operator.symbol]

namespace Factor

theorem text_ne_empty (factor : Factor Numbered) : factor.text ≠ "" := by
  cases factor with
  | atom value => exact value.text_ne_empty
  | parens first rest => simp [text]

/-- A text with the texts of factors behind it. Behind no text, the first connective is left out. -/
def textBehind (before : String) : List (Connective × Factor Numbered) → String
  | [] => before
  | (connective, factor) :: rest =>
    textBehind (Writer.joined before connective (some factor.text)) rest

theorem textBehind_of_ne_empty {before : String} (h : before ≠ "")
    (factors : List (Connective × Factor Numbered)) :
    textBehind before factors = before ++ restText factors := by
  induction factors generalizing before with
  | nil => exact String.append_empty.symm
  | cons link rest ih =>
    obtain ⟨connective, factor⟩ := link
    have hmore : before ++ connective.text ++ factor.text ≠ "" := by
      simp [String.append_eq_empty_iff, h]
    rw [textBehind, Writer.joined, if_neg (by simpa using h), ih hmore, restText]
    simp only [String.append_assoc]

/-- Behind no text, factors are written as a level. -/
theorem textBehind_empty (connective : Connective) (first : Factor Numbered)
    (rest : List (Connective × Factor Numbered)) :
    textBehind "" ((connective, first) :: rest) = (Level.mk first rest).text := by
  have hempty : "".isEmpty = true := rfl
  rw [textBehind, Writer.joined, if_pos hempty, textBehind_of_ne_empty first.text_ne_empty,
    Level.text]

end Factor

theorem Level.text_ne_empty (level : Level Numbered) : level.text ≠ "" := by
  simp [text, String.append_eq_empty_iff, level.first.text_ne_empty]

/-- The text of a level, found without looking whether there is one. -/
theorem Level.text_of_factors (counter : Counter) (factors : List (Connective × Factor Resolved)) :
    (Level.ofFactors? factors).map (fun level ↦ (level.number counter).text) =
      let text := Factor.textBehind "" (Factor.numberAll counter factors)
      if text.isEmpty then none else some text := by
  cases factors with
  | nil => rfl
  | cons link rest =>
    obtain ⟨connective, first⟩ := link
    have hne := Level.text_ne_empty
      ⟨first.number counter, Factor.numberAll (counter.after first.atoms) rest⟩
    dsimp only
    rw [Factor.numberAll, Factor.textBehind_empty, if_neg (by simpa using hne)]
    rfl

namespace Factor

/-- The text of the factor of an entry, with its atoms numbered. -/
def entryText? (counter : Counter) (entry : Entry Resolved) : Option String :=
  Option.map (fun factor ↦ (number counter factor).text) <| ofEntry? entry

theorem entryText?_group (counter : Counter) (atoms : List Resolved) :
    entryText? counter (.group atoms) =
      let texts := (numberAtoms counter atoms).map Numbered.text
      if texts.isEmpty then none else some ("(" ++ " AND ".intercalate texts ++ ")") := by
  cases atoms with
  | nil => rfl
  | cons first others =>
    have htext := restText_alsoAtoms (first.number counter).text (counter.after [first]) others
    rw [entryText?, ofEntry?, Option.map_some, number, text, @String.append_assoc "(", number,
      text, Factor.atoms, htext]
    rfl

theorem entryText?_nested (counter : Counter) (entries : List (Entry Resolved)) :
    entryText? counter (.nested entries) =
      let text := textBehind "" (numberAll counter (ofEntries .and entries))
      if text.isEmpty then none else some ("(" ++ text ++ ")") := by
  rw [entryText?, ofEntry?]
  cases ofEntries .and entries with
  | nil => rfl
  | cons link rest =>
    obtain ⟨connective, first⟩ := link
    have hne := Level.text_ne_empty
      ⟨first.number counter, numberAll (counter.after first.atoms) rest⟩
    dsimp only
    rw [numberAll, textBehind_empty, if_neg (by simpa using hne), Level.text,
      Option.map_some, number, text, @String.append_assoc "("]

/-- The first of several entries comes next. With or without a factor, it uses a pending marker up
and decides what is pending behind it. -/
theorem textBehind_ofEntries_cons (before : String) (counter : Counter) (pending : Connective)
    (entry : Entry Resolved) (rest : List (Entry Resolved)) :
    textBehind before (numberAll counter (ofEntries pending (entry :: rest))) =
      textBehind (Writer.joined before pending (entryText? counter entry))
        (numberAll (counter.after entry.leaves)
          (ofEntries (if entry.isOr then .or else .and) rest)) := by
  have hatoms := atoms_of_entry entry
  rw [entryText?]
  cases hfactor : ofEntry? entry with
  | none =>
    rw [hfactor] at hatoms
    rw [ofEntries_cons_of_none hfactor, ← hatoms]
    rfl
  | some factor =>
    rw [hfactor] at hatoms
    rw [ofEntries_cons hfactor, isOr_of_ofEntry?_eq_some hfactor, ← hatoms]
    rfl

end Factor

end Expression

/-! ## Entries -/

namespace Filter.Entry

variable {α : Type}

/-- Entries, numbered from `i` on, without the conditions at the given places. -/
def keptAll (positions : List Position) (i : Nat) (entries : List (Entry α)) : List (Entry α) :=
  (entries.zipIdx i).map fun (entry, i) ↦ entry.kept positions i

theorem keptAll_cons (positions : List Position) (i : Nat) (entry : Entry α)
    (rest : List (Entry α)) :
    keptAll positions i (entry :: rest) =
      entry.kept positions i :: keptAll positions (i + 1) rest := by
  rw [keptAll, List.zipIdx_cons, List.map_cons]
  rfl

theorem keptAll_nil (i : Nat) (entries : List (Entry α)) : keptAll [] i entries = entries := by
  rw [keptAll]
  simp only [kept_nil]
  exact List.zipIdx_map_fst i entries

end Filter.Entry

namespace Writer

variable (schema : Schema) {tree : Filter.Tree Clause}

/-- The places where conditions are left out: none but those of the outermost level. -/
def leftOut (consumed : List Position) (isOutermost : Bool) : List Position :=
  if isOutermost then consumed else []

theorem unused_eq (consumed : List Position) (isOutermost : Bool) (i : Nat)
    (conditions : List Clause) :
    (conditions.zipIdx.filter fun (_, j) ↦ !(isOutermost && consumed.contains ⟨i, j⟩)).map
        Prod.fst =
      Entry.keptConditions (leftOut consumed isOutermost) i conditions := by
  cases isOutermost with
  | false => simp [Entry.keptConditions, leftOut]
  | true => simp [Entry.keptConditions, leftOut]

mutual

/-- An entry with conditions is written as the numbered factor of what is kept of it. -/
theorem piece_ofAtoms (consumed : List Position) (isOutermost : Bool) (i : Nat)
    (entry : Entry Clause) (h : ∀ clause ∈ entry.leaves, clause.condition.HasOperands)
    (atoms : List Resolved) :
    let kept := (entry.kept (leftOut consumed isOutermost) i).mapLeaves (Resolved.ofClause schema)
    piece schema consumed isOutermost i entry (.ofAtoms atoms) =
      some (Factor.entryText? (Counter.start.after atoms) kept,
        .ofAtoms (atoms ++ kept.leaves)) := by
  match entry with
  | .or =>
    simp [piece, Entry.kept, Entry.mapLeaves, Entry.leaves, Factor.entryText?, Factor.ofEntry?,
      pure_apply]
  | .group conditions =>
    have hkept : ∀ clause ∈ Entry.keptConditions (leftOut consumed isOutermost) i conditions,
        clause.condition.HasOperands := by
      intro clause hclause
      exact h clause ((Entry.keptConditions_sublist _ _ _).subset hclause)
    dsimp only
    rw [piece]
    dsimp only
    rw [unused_eq, bind_apply (mapM_condition_ofAtoms schema hkept atoms), Entry.kept,
      Entry.mapLeaves, Factor.entryText?_group]
    rfl
  | .nested entries =>
    have hentries := pieces_ofAtoms consumed false 0 "" .and entries h atoms
    dsimp only at hentries ⊢
    rw [leftOut, if_neg (by simp), Entry.keptAll_nil] at hentries
    rw [piece, bind_apply hentries, Entry.kept, Entry.mapLeaves, Factor.entryText?_nested]
    · rfl
    · simp

/-- Entries are written as numbered factors behind the text of those before them. -/
theorem pieces_ofAtoms (consumed : List Position) (isOutermost : Bool) (i : Nat) (text : String)
    (pending : Connective) (entries : List (Entry Clause))
    (h : ∀ clause ∈ Entry.leavesAll entries, clause.condition.HasOperands)
    (atoms : List Resolved) :
    let kept := Entry.mapLeavesAll (Resolved.ofClause schema)
      (Entry.keptAll (leftOut consumed isOutermost) i entries)
    pieces schema consumed isOutermost i text pending entries (.ofAtoms atoms) =
      some (Factor.textBehind text
          (Factor.numberAll (Counter.start.after atoms) (Factor.ofEntries pending kept)),
        .ofAtoms (atoms ++ Entry.leavesAll kept)) := by
  match entries with
  | [] => simp [pieces, pure_apply, Entry.keptAll, Entry.mapLeavesAll, Entry.leavesAll,
      Factor.ofEntries, Factor.numberAll, Factor.textBehind]
  | entry :: rest =>
    obtain ⟨hentry, hrest⟩ : (∀ clause ∈ entry.leaves, clause.condition.HasOperands) ∧
        ∀ clause ∈ Entry.leavesAll rest, clause.condition.HasOperands := by
      simpa [Entry.leavesAll, or_imp, forall_and] using h
    have hpiece := piece_ofAtoms consumed isOutermost i entry hentry atoms
    have hor : ((entry.kept (leftOut consumed isOutermost) i).mapLeaves
        (Resolved.ofClause schema)).isOr = entry.isOr := by
      rw [Entry.isOr_mapLeaves, Entry.isOr_kept]
    dsimp only at hpiece ⊢
    rw [pieces, bind_apply hpiece, pieces_ofAtoms _ _ _ _ _ rest hrest, Entry.keptAll_cons,
      Entry.mapLeavesAll, Entry.leavesAll, List.append_assoc, Expression.after_append,
      Factor.textBehind_ofEntries_cons, hor]

end

/-- The filter expression is written as the numbered level of what is left of the filter. -/
theorem filter_ofAtoms (h : tree.HasOperands) (consumed : List Position) (atoms : List Resolved) :
    let kept := (tree.without consumed).mapLeaves (Resolved.ofClause schema)
    filter schema tree consumed (.ofAtoms atoms) =
      some ((Level.ofTree? kept).map fun level ↦ (level.number (Counter.start.after atoms)).text,
        .ofAtoms (atoms ++ kept.leaves)) := by
  have hpieces := pieces_ofAtoms schema consumed true 0 "" .and tree h atoms
  have hkept : Entry.keptAll (leftOut consumed true) 0 tree = tree.without consumed :=
    (Filter.Tree.without_eq consumed tree).symm
  rw [hkept] at hpieces
  dsimp only
  rw [filter, bind_apply hpieces, Level.ofTree?, Level.text_of_factors]
  rfl

/-! ## Keys are written as conjunctions -/

theorem conditionAt?_eq_some_iff {position : Position} {clause : Clause} :
    tree.conditionAt? position = some clause ↔ tree.HasAt position clause := by
  unfold Filter.Tree.conditionAt? Filter.Tree.HasAt
  split
  · rename_i conditions hentry
    simp [hentry]
  · rename_i hentry
    constructor
    · intro hnone
      cases hnone
    · intro hexists
      obtain ⟨conditions, hgroup, _⟩ := hexists
      exact absurd hgroup (hentry conditions)

theorem bind_conditionAt? {term? : Option Term} (h : ∀ term ∈ term?, term ∈ tree.terms) :
    (term?.map Term.position).bind tree.conditionAt? = term?.map Term.clause := by
  cases term? with
  | none => rfl
  | some term => exact conditionAt?_eq_some_iff.2 (Filter.Tree.mem_terms_iff_hasAt.1 (h term rfl)).2

/-- The key condition is written as a conjunction of the conditions of the key. -/
theorem keyCondition_ofAtoms (h : tree.HasOperands) {keys : Index.KeyTerms}
    (hkeys : keys.AreFrom tree.terms) :
    let atoms := (Plan.keyConditions keys).map fun term ↦ Resolved.ofClause schema term.clause
    keyCondition schema tree (keys.hash.map Term.position) (keys.range.map Term.position)
        (.ofAtoms []) =
      some ((Level.conjunction? atoms).map fun level ↦ (level.number Counter.start).text,
        .ofAtoms atoms) := by
  have hoperands : ∀ term ∈ tree.terms, term.clause.condition.HasOperands := by
    intro term hterm
    exact h _ (Filter.Tree.clause_mem_leaves hterm)
  have htext (first : Resolved) (others : List Resolved) :
      (Level.conjunction? (first :: others)).map (fun level ↦ (level.number Counter.start).text) =
        some (" AND ".intercalate
          ((Expression.numberAtoms Counter.start (first :: others)).map Numbered.text)) :=
    congrArg some (Level.text_of_conjunction? rfl)
  rw [keyCondition, bind_conditionAt? hkeys.hash, bind_conditionAt? hkeys.range]
  unfold Plan.keyConditions
  cases hhash : keys.hash with
  | none => rfl
  | some hash =>
    have hfirst := condition_ofAtoms schema (hoperands hash (hkeys.hash hash hhash)) []
    dsimp only [Option.map_some]
    rw [bind_apply hfirst, List.map_cons, htext]
    cases hrange : keys.range with
    | none => rfl
    | some range =>
      have hsecond := condition_ofAtoms schema
        (hoperands range (hkeys.range range hrange)) [Resolved.ofClause schema hash.clause]
      dsimp only [Option.map_some]
      rw [List.nil_append, bind_apply hsecond]
      rfl

/-! ## Both expressions -/

/-- Whatever is written as the key condition is left out of the filter expression. -/
theorem consumed_eq (keys : Index.KeyTerms) (f : Clause → Resolved) :
    (if ((Level.conjunction? ((Plan.keyConditions keys).map fun term ↦ f term.clause)).map
          fun level ↦ (level.number Counter.start).text).isSome then
        (keys.hash.map Term.position).toList ++ (keys.range.map Term.position).toList else []) =
      (Plan.keyConditions keys).map Term.position := by
  unfold Plan.keyConditions
  cases keys.hash with
  | none => rfl
  | some hash =>
    cases keys.range with
    | none => rfl
    | some range => rfl

/-- The conditions that are written: those of the key, and what is left of the filter. -/
def written (tree : Filter.Tree Clause) (keys : Index.KeyTerms) : List Clause :=
  (Plan.keyConditions keys).map Term.clause ++
    (tree.without ((Plan.keyConditions keys).map Term.position)).leaves

/-- The two expressions of a plan are written one after the other, with one count of placeholders
for both. -/
theorem conditions_ofAtoms (h : tree.HasOperands) {keys : Index.KeyTerms}
    (hkeys : keys.AreFrom tree.terms) :
    let key := (Plan.keyConditions keys).map fun term ↦ Resolved.ofClause schema term.clause
    let kept := (tree.without ((Plan.keyConditions keys).map Term.position)).mapLeaves
      (Resolved.ofClause schema)
    conditions schema tree keys (.ofAtoms []) =
      some (((Level.conjunction? key).map fun level ↦ (level.number Counter.start).text,
          (Level.ofTree? kept).map fun level ↦ (level.number (Counter.start.after key)).text),
        .ofAtoms ((written tree keys).map (Resolved.ofClause schema))) := by
  dsimp only
  rw [conditions, bind_apply (keyCondition_ofAtoms schema h hkeys), consumed_eq,
    bind_apply (filter_ofAtoms schema h _ _), written, List.map_append, List.map_map,
    Filter.Tree.leaves_mapLeaves]
  rfl

end Writer

/-! ## Tables that gain operands -/

/-- Operands are added to their table: each gets the next placeholder, and nothing else changes. -/
structure Tables.Gains (before after : Tables) (operands : List Json) : Prop where
  length : after.values.length = before.values.length + operands.length
  added : Expression.Tabulates after.values valuePlaceholder before.values.length
    (operands.map Wire.Value.ofDocument)
  kept : ∀ name ∈ before.values.map Prod.fst, after.values.get? name = before.values.get? name

theorem Tables.gains_ofLists (names others : List String) (values : List Wire.Value)
    (operands : List Json) :
    (ofLists names values).Gains (ofLists others (values ++ operands.map .ofDocument))
      operands := by
  have hlength : (ofLists names values).values.length = values.length :=
    Plan.length_placeholderTable Expression.valuePlaceholder_injective values
  have hbefore : Expression.Tabulates (Plan.placeholderTable valuePlaceholder values)
      valuePlaceholder 0 values :=
    Plan.tabulates_placeholderTable Expression.valuePlaceholder_injective values
  have hboth : Expression.Tabulates
      (Plan.placeholderTable valuePlaceholder (values ++ operands.map .ofDocument))
      valuePlaceholder 0 (values ++ operands.map .ofDocument) :=
    Plan.tabulates_placeholderTable Expression.valuePlaceholder_injective _
  rw [Expression.tabulates_append, Nat.zero_add] at hboth
  constructor
  · rw [hlength, ofLists, Plan.length_placeholderTable Expression.valuePlaceholder_injective,
      List.length_append, List.length_map]
  · rw [hlength]
    exact hboth.2
  · intro name hname
    have hkeys := Plan.perm_keys_placeholderTable Expression.valuePlaceholder_injective values
    obtain ⟨i, hi, rfl⟩ := List.mem_map.1 (hkeys.mem_iff.1 hname)
    have hvalue : i < values.length := List.mem_range.1 hi
    exact (hboth.1.get?_eq hvalue).trans (hbefore.get?_eq hvalue).symm

/-! ## Nothing is missing -/

namespace Writer

variable (schema : Schema) {tree : Filter.Tree Clause}

theorem gains_condition {clause : Clause} (h : clause.condition.HasOperands) (names : List String)
    (values : List Wire.Value) :
    ∃ text after, condition schema clause (.ofLists names values) = some (text, after) ∧
      (Tables.ofLists names values).Gains after clause.condition.operands :=
  ⟨_, _, condition_apply h, Tables.gains_ofLists names _ values _⟩

/-- Whatever choice of an index can be followed, both expressions can be written, and the tables
gain the operands of what is written. -/
theorem gains_conditions (hoperands : tree.HasOperands) {keys : Index.KeyTerms}
    (hkeys : keys.AreFrom tree.terms) :
    ∃ key filter tables, conditions schema tree keys ⟨[], []⟩ = some ((key, filter), tables) ∧
      Tables.Gains ⟨[], []⟩ tables
        ((written tree keys).flatMap fun clause ↦ clause.condition.operands) := by
  refine ⟨_, _, _, conditions_ofAtoms schema hoperands hkeys, ?_⟩
  have hvalues : ((written tree keys).map (Resolved.ofClause schema)).flatMap Atom.operands =
      ((written tree keys).flatMap fun clause ↦ clause.condition.operands).map .ofDocument := by
    rw [List.flatMap_map, List.map_flatMap]
    rfl
  rw [Tables.ofAtoms, hvalues]
  exact Tables.gains_ofLists [] _ [] _

variable {schema} {options : Options} {resolution : Index.Resolution} {plan : Plan}

/-- The atoms of a plan are the conditions that are written. -/
theorem atoms_of_make (h : Plan.make schema tree options = .ok plan)
    (hresolve : options.index.resolve schema tree = .ok resolution) :
    plan.atoms = (written tree resolution.keys).map (Resolved.ofClause schema) := by
  rw [Plan.atoms_eq h hresolve, Filter.Tree.leaves_remaining, written]

/-- What is written for a plan are the expressions of its request, and what is entered are the names
and operands of its atoms. -/
theorem conditions_of_make (h : Plan.make schema tree options = .ok plan)
    (hresolve : options.index.resolve schema tree = .ok resolution) :
    conditions schema tree resolution.keys ⟨[], []⟩ =
      some (((plan.request schema options).keyCondition, (plan.request schema options).filter),
        .ofAtoms plan.atoms) := by
  rw [atoms_of_make h hresolve]
  obtain ⟨hoperands, other, hother, _, projection, _, rfl⟩ := Plan.make_eq_ok_iff.1 h
  cases hresolve.symm.trans hother
  have hwritten := conditions_ofAtoms schema
    (Filter.Tree.operandError?_eq_none_iff.1 hoperands) (Index.areFrom_of_resolve hresolve)
  refine hwritten.trans ?_
  rw [Plan.request, Plan.numberedKey, Plan.numberedFilter, Plan.keyAtoms,
    Level.atoms_conjunction?, Option.map_map, Option.map_map]
  rfl

/-- What is written are the expressions of the request. The table of operands is the one of the
request, and so is the table of names, up to the names of the projection. -/
theorem conditions_of_forFilter {request : Request}
    (h : Request.forFilter schema tree options = .ok request)
    (hresolve : options.index.resolve schema tree = .ok resolution) :
    let names := (written tree resolution.keys).flatMap fun clause ↦
      Expression.physicalPath schema clause.path
    conditions schema tree resolution.keys ⟨[], []⟩ =
        some ((request.keyCondition, request.filter),
          ⟨Plan.placeholderTable namePlaceholder names, request.values⟩) ∧
      ∃ projection, Plan.projectionPaths schema options = .ok projection ∧
        request.names = Plan.placeholderTable namePlaceholder (names ++ projection.flatten) := by
  obtain ⟨plan, hmake, rfl⟩ := Request.forFilter_eq_ok_iff.1 h
  obtain ⟨_, _, _, _, projection, hprojection, hplan⟩ := Plan.make_eq_ok_iff.1 hmake
  have hnames : plan.atoms.flatMap Atom.path = (written tree resolution.keys).flatMap fun clause ↦
      Expression.physicalPath schema clause.path := by
    rw [atoms_of_make hmake hresolve, List.flatMap_map]
    rfl
  refine ⟨?_, projection, hprojection, ?_⟩
  · rw [conditions_of_make hmake hresolve, Tables.ofAtoms, hnames]
    rfl
  · rw [Plan.request, Plan.names, hnames, hplan]

/--
If no condition of a filter has too few or too many operands, and the choice of an index can be
followed, then every place that the key is read from holds a condition, every condition of the
filter can be written behind whatever was written before, adding just its operands, and so can both
expressions of the request.
-/
theorem hasAt_and_exists_conditions (hoperands : tree.operandError? = none)
    (hresolve : options.index.resolve schema tree = .ok resolution) :
    (∀ term ∈ resolution.keys.hash.toList ++ resolution.keys.range.toList,
        tree.HasAt term.position term.clause) ∧
      (∀ clause ∈ tree.leaves, ∀ names values,
        ∃ text after, condition schema clause (.ofLists names values) = some (text, after) ∧
          (Tables.ofLists names values).Gains after clause.condition.operands) ∧
      ∃ key filter tables,
        conditions schema tree resolution.keys ⟨[], []⟩ = some ((key, filter), tables) ∧
        Tables.Gains ⟨[], []⟩ tables
          ((written tree resolution.keys).flatMap fun clause ↦ clause.condition.operands) ∧
        ∀ request, Request.forFilter schema tree options = .ok request →
          request.keyCondition = key ∧ request.filter = filter ∧
            request.values = tables.values := by
  have htree : tree.HasOperands := Filter.Tree.operandError?_eq_none_iff.1 hoperands
  have hkeys := Index.areFrom_of_resolve hresolve
  refine ⟨?_, ?_, ?_⟩
  · intro term hterm
    have hmem : term ∈ tree.terms := by
      rcases List.mem_append.1 hterm with hhash | hrange
      · exact hkeys.hash term (Option.mem_toList.1 hhash)
      · exact hkeys.range term (Option.mem_toList.1 hrange)
    exact (Filter.Tree.mem_terms_iff_hasAt.1 hmem).2
  · intro clause hclause
    exact gains_condition schema (htree clause hclause)
  · obtain ⟨key, filter, tables, hwritten, hgains⟩ :=
      gains_conditions schema htree hkeys
    refine ⟨key, filter, tables, hwritten, hgains, ?_⟩
    intro request hrequest
    obtain ⟨hrequest, -⟩ := conditions_of_forFilter hrequest hresolve
    cases hwritten.symm.trans hrequest
    exact ⟨rfl, rfl, rfl⟩

/-- Of the five operands of the sample filter, three are part of the key. -/
theorem hasAt_and_exists_conditions_example :
    Example.tree.operandError? = none ∧
      ∃ resolution, Example.options.index.resolve Example.schema Example.tree = .ok resolution ∧
        ∃ tables, conditions Example.schema Example.tree resolution.keys ⟨[], []⟩ =
            some ((Example.request.keyCondition, Example.request.filter), tables) ∧
          Tables.Gains ⟨[], []⟩ tables
            [.string "c1", .string "a", .string "b", .bool true, .null] ∧
          tables.values = Example.request.values := by
  have hoperands : Example.tree.operandError? = none := rfl
  have hresolve : Example.options.index.resolve Example.schema Example.tree =
      .ok ⟨some (.primary Example.schema),
        Index.keyTerms Example.schema Example.tree (.primary Example.schema)⟩ := rfl
  obtain ⟨_, _, key, filter, tables, hwritten, hgains, hrequest⟩ :=
    hasAt_and_exists_conditions hoperands hresolve
  obtain ⟨rfl, rfl, hvalues⟩ := hrequest _ Example.forFilter_tree
  exact ⟨hoperands, _, hresolve, tables, hwritten, hgains, hvalues.symm⟩

end Writer

end IndexedSearch
