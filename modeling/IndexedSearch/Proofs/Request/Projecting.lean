import IndexedSearch.Proofs.Expression.Reader
import IndexedSearch.Proofs.Filter.Paths
import IndexedSearch.Proofs.Request.Independence

/-!
# What a request projects

The names to project lead to attribute paths, and a request projects each of these paths once, in
the order of their first names. A name for a path that is projected anyway makes no difference.
Without names, nothing is projected.
-/

namespace IndexedSearch

open Expression (Counter Tabulates Token namePlaceholder numberPaths pathTokens physicalPath
  readPath? scan)
open IndexedSearch.Filter (Clause Path)

/-! ## First occurrences -/

section

variable {α : Type} [BEq α] [LawfulBEq α]

/-- The members that do not repeat an earlier one, in their order. -/
def firstOccurrences (members : List α) : List α :=
  (members.zipIdx.filter fun place ↦ place.1 ∉ members.take place.2).map Prod.fst

theorem firstOccurrences_append_singleton (members : List α) (last : α) :
    firstOccurrences (members ++ [last]) =
      if last ∈ members then firstOccurrences members else firstOccurrences members ++ [last] := by
  have hbefore : (members.zipIdx.filter fun place ↦ place.1 ∉ (members ++ [last]).take place.2) =
      members.zipIdx.filter fun place ↦ place.1 ∉ members.take place.2 := by
    apply List.filter_congr
    intro place hplace
    have hlt : place.2 < members.length := List.snd_lt_of_mem_zipIdx hplace
    rw [List.take_append_of_le_length hlt.le]
  rw [firstOccurrences, List.zipIdx_append, List.filter_append, hbefore, List.map_append,
    firstOccurrences]
  split
  · rename_i hlast
    simp [hlast]
  · rename_i hlast
    simp [hlast]

theorem eraseDups_eq_firstOccurrences (members : List α) :
    members.eraseDups = firstOccurrences members := by
  induction members using List.reverseRecOn with
  | nil => rfl
  | append_singleton members last ih =>
    rw [firstOccurrences_append_singleton, List.eraseDups_append, ih]
    split
    · rename_i hlast
      simp [List.removeAll, hlast]
    · rename_i hlast
      simp [List.removeAll, hlast, List.eraseDups_cons]

omit [LawfulBEq α] in
theorem eraseDups_eq_nil_iff {members : List α} : members.eraseDups = [] ↔ members = [] := by
  cases members <;> simp [List.eraseDups_cons]

/-- A member that repeats an earlier one makes no difference to what there is. -/
theorem eraseDups_append_cons_of_mem {before : List α} {member : α} (h : member ∈ before)
    (after : List α) : (before ++ member :: after).eraseDups = (before ++ after).eraseDups := by
  have hremoved : (member :: after).removeAll before = after.removeAll before := by
    simp [List.removeAll, h]
  rw [List.eraseDups_append, hremoved, List.eraseDups_append]

/-- Going through members with those that were seen, the first one is left out if it is among them,
and is seen from then on. -/
theorem eraseDups_removeAll_cons (first : α) (rest seen : List α) :
    ((first :: rest).removeAll seen).eraseDups =
      if first ∈ seen then (rest.removeAll seen).eraseDups
      else first :: (rest.removeAll (first :: seen)).eraseDups := by
  rw [List.cons_removeAll]
  by_cases hfirst : first ∈ seen
  · rw [if_neg (by simpa using hfirst), if_pos hfirst]
  · rw [if_pos (by simpa using hfirst), if_neg hfirst, List.eraseDups_cons, List.removeAll_cons,
      List.removeAll, List.removeAll, List.filter_comm]

end

/-- The attribute path that a name to project leads to. A text that is no path leads to none. -/
def leadsTo? (schema : Schema) (name : String) : Option (List String) :=
  (Path.ofText? name).map (physicalPath schema)

theorem ne_nil_of_leadsTo? {schema : Schema} {name : String} {path : List String}
    (h : leadsTo? schema name = some path) : path ≠ [] := by
  obtain ⟨read, -, rfl⟩ := Option.map_eq_some_iff.1 h
  exact List.cons_ne_nil _ _

/-! ## Reading a projection -/

namespace Request

/-- The attribute path that tokens stand for: names with dots between them, looked up in the table
of the request. -/
def projectedPath? (request : Request) (tokens : List Token) : Option (List String) :=
  match readPath? tokens with
  | some (path, []) => path.mapM request.names.get?
  | _ => none

/-- The attribute paths that stand in a text with commas between them. -/
def projectedPaths? (request : Request) (text : String) : Option (List (List String)) :=
  ((scan text).splitOn .comma).mapM request.projectedPath?

theorem projectedPath?_pathTokens {request : Request} {path : List String} (hpath : path ≠ []) :
    request.projectedPath? (pathTokens path) = path.mapM request.names.get? := by
  have hread : readPath? (pathTokens path ++ []) = some (path, []) :=
    Expression.readPath?_pathTokens hpath nofun
  rw [List.append_nil] at hread
  rw [projectedPath?, hread]

/-- Numbered paths are looked up in a table that has their names one after another. -/
theorem mapM_projectedPath?_numberPaths {request : Request} {next : Nat}
    {paths : List (List String)} (hpaths : ∀ path ∈ paths, path ≠ [])
    (h : Tabulates request.names namePlaceholder next paths.flatten) :
    ((numberPaths next paths).map fun path ↦ pathTokens (path.map namePlaceholder)).mapM
      request.projectedPath? = some paths := by
  induction paths generalizing next with
  | nil => rfl
  | cons path rest ih =>
    obtain ⟨hpath, hrest⟩ := List.forall_mem_cons.1 hpaths
    rw [List.flatten_cons, Expression.tabulates_append] at h
    have hnumbered : (List.range' next path.length).map namePlaceholder ≠ [] := by
      simpa [List.range'_eq_nil_iff] using hpath
    rw [numberPaths, List.map_cons, List.mapM_cons, projectedPath?_pathTokens hnumbered,
      h.1.mapM_get?, ih hrest h.2]
    rfl

end Request

namespace Expression

theorem comma_notMem_pathTokens (path : List String) : Token.comma ∉ pathTokens path := by
  cases path with
  | nil => exact List.not_mem_nil
  | cons root inner => simp [pathTokens, intercalate_cons, List.flatMap_map]

end Expression

namespace Plan

variable {schema : Schema} {options : Options} {plan : Plan}

/-- A table has the names of a projection behind those in the conditions. -/
theorem tabulates_projection (plan : Plan) (schema : Schema) (options : Options) :
    Tabulates (plan.request schema options).names namePlaceholder
      (Counter.start.after plan.atoms).name plan.projection.flatten := by
  have hnames := tabulates_placeholderTable Expression.namePlaceholder_injective plan.names
  rw [names, Expression.tabulates_append] at hnames
  exact hnames.2

/-- The paths of a projection are read from its text. There is no text without paths. -/
theorem map_projectionText? (hpaths : ∀ path ∈ plan.projection, path ≠ []) :
    plan.projectionText?.map (plan.request schema options).projectedPaths? =
      if plan.projection = [] then none else some (some plan.projection) := by
  by_cases hnone : plan.projection = []
  · rw [projectionText?, if_pos (List.isEmpty_iff.2 hnone), if_pos hnone]
    rfl
  · have hsplit : (scan (", ".intercalate
        (plan.numberedProjection.map Expression.pathText))).splitOn .comma =
          plan.numberedProjection.map fun path ↦ pathTokens (path.map namePlaceholder) := by
      rw [Expression.scan_paths]
      apply List.splitOn_intercalate
      · intro tokens htokens
        obtain ⟨path, -, rfl⟩ := List.mem_map.1 htokens
        exact Expression.comma_notMem_pathTokens _
      · intro hnil
        obtain ⟨path, rest, hprojection⟩ := List.exists_cons_of_ne_nil hnone
        rw [numberedProjection, hprojection] at hnil
        cases hnil
    rw [projectionText?, if_neg (by simpa using hnone), if_neg hnone, Option.map_some,
      Request.projectedPaths?, hsplit]
    exact congrArg some
      (Request.mapM_projectedPath?_numberPaths hpaths (plan.tabulates_projection schema options))

/-! ## From names to paths -/

/-- All names lead to paths just if each can be read. -/
theorem map_leadsTo?_eq_iff {names : List String} {paths : List (List String)} :
    names.map (leadsTo? schema) = paths.map some ↔
      ∃ read, names.mapM Path.parse = .ok read ∧ read.map (physicalPath schema) = paths := by
  simp only [mapM_eq_ok_iff, Path.parse_eq_ok_iff]
  induction names generalizing paths with
  | nil =>
    constructor
    · intro hpaths
      exact ⟨[], .nil, (List.map_eq_nil_iff.1 hpaths.symm).symm⟩
    · rintro ⟨read, hread, rfl⟩
      rw [List.forall₂_nil_left_iff.1 hread]
      rfl
  | cons name rest ih =>
    constructor
    · intro hpaths
      obtain ⟨path, others, rfl, hname, hothers⟩ := List.map_eq_cons_iff.1 hpaths.symm
      obtain ⟨first, hfirst, rfl⟩ := Option.map_eq_some_iff.1 hname.symm
      obtain ⟨read, hread, rfl⟩ := ih.1 hothers.symm
      exact ⟨first :: read, .cons hfirst hread, rfl⟩
    · rintro ⟨_, hread, rfl⟩
      obtain ⟨first, read, hfirst, hrest, rfl⟩ := List.forall₂_cons_left_iff.1 hread
      rw [List.map_cons, List.map_cons, List.map_cons, leadsTo?, hfirst, ih.2 ⟨read, hrest, rfl⟩]
      rfl

/-- The paths of a projection are those that the names lead to, each taken once. -/
theorem projectionPaths_eq_ok_iff {projection : List (List String)}
    (hcount : options.countOnly = false) :
    projectionPaths schema options = .ok projection ↔
      ∃ paths : List (List String), options.projection.map (leadsTo? schema) = paths.map some ∧
        paths.eraseDups = projection := by
  rw [projectionPaths, if_neg (by simp [hcount]), bind_eq_ok_iff]
  simp only [map_leadsTo?_eq_iff, pure_eq_ok_iff]
  constructor
  · intro hexists
    obtain ⟨read, hread, hprojection⟩ := hexists
    exact ⟨_, ⟨read, hread, rfl⟩, hprojection⟩
  · intro hexists
    obtain ⟨_, ⟨read, hread, rfl⟩, hprojection⟩ := hexists
    exact ⟨read, hread, hprojection⟩

end Plan

namespace Request

variable {schema : Schema} {tree : Filter.Tree Clause} {options : Options} {request : Request}

/-- The names to project count through their paths only. -/
theorem forFilter_congr_projection {names : List String}
    (h : Plan.projectionPaths schema { options with projection := names } =
      Plan.projectionPaths schema options) :
    forFilter schema tree { options with projection := names } =
      forFilter schema tree options := by
  have hmake : Plan.make schema tree { options with projection := names } =
      Plan.make schema tree options :=
    Plan.make_congr rfl rfl rfl h
  rw [forFilter, hmake]
  rfl

/-- The request projects what the names lead to, each path once and in the order of their first
names, or nothing if there are no names. -/
structure Projects (request : Request) (schema : Schema) (names : List String) : Prop where
  paths : ∃ paths : List (List String), names.map (leadsTo? schema) = paths.map some ∧
    request.projection.map request.projectedPaths? =
      if names = [] then none else some (some (firstOccurrences paths))
  select : request.select = if names = [] then none else some .specificAttributes

theorem projects_of_make {plan : Plan} (hcount : options.countOnly = false)
    (h : Plan.make schema tree options = .ok plan) :
    (plan.request schema options).Projects schema options.projection := by
  obtain ⟨_, _, _, _, projection, hprojection, rfl⟩ := Plan.make_eq_ok_iff.1 h
  obtain ⟨paths, hpaths, rfl⟩ := (Plan.projectionPaths_eq_ok_iff hcount).1 hprojection
  have hnames : paths.eraseDups = [] ↔ options.projection = [] := by
    rw [eraseDups_eq_nil_iff, ← List.map_eq_nil_iff (f := leadsTo? schema), hpaths,
      List.map_eq_nil_iff]
  have hsome : ∀ path ∈ paths.eraseDups, path ≠ [] := by
    intro path hpath
    have hleads : some path ∈ options.projection.map (leadsTo? schema) := by
      rw [hpaths]
      exact List.mem_map_of_mem (List.mem_eraseDups.1 hpath)
    obtain ⟨name, -, hname⟩ := List.mem_map.1 hleads
    exact ne_nil_of_leadsTo? hname
  constructor
  · refine ⟨paths, hpaths, (Plan.map_projectionText? hsome).trans ?_⟩
    rw [← eraseDups_eq_firstOccurrences]
    exact if_congr hnames rfl rfl
  · have hcounting : ¬ options.countOnly = true := by simp [hcount]
    rw [Plan.request, if_neg hcounting, Plan.projectionText?, apply_ite (Option.map _)]
    exact if_congr (List.isEmpty_iff.trans hnames) rfl rfl

/-- A request that does not count projects what its names lead to. A further name for a path that an
earlier name leads to makes no difference. -/
theorem projects_forFilter (hcount : options.countOnly = false)
    (h : forFilter schema tree options = .ok request) :
    request.Projects schema options.projection ∧
      ∀ before name after, options.projection = before ++ after →
        (∃ earlier ∈ before, leadsTo? schema earlier = leadsTo? schema name) →
        forFilter schema tree { options with projection := before ++ name :: after } =
          .ok request := by
  obtain ⟨plan, hplan, rfl⟩ := forFilter_eq_ok_iff.1 h
  refine ⟨projects_of_make hcount hplan, ?_⟩
  intro before name after hnames hearlier
  obtain ⟨earlier, hmem, hsame⟩ := hearlier
  obtain ⟨_, _, _, _, projection, hprojection, -⟩ := Plan.make_eq_ok_iff.1 hplan
  rw [← h]
  apply forFilter_congr_projection
  rw [hprojection]
  have hcounting : { options with projection := before ++ name :: after }.countOnly = false :=
    hcount
  apply (Plan.projectionPaths_eq_ok_iff hcounting).2
  obtain ⟨paths, hpaths, rfl⟩ := (Plan.projectionPaths_eq_ok_iff hcount).1 hprojection
  rw [hnames, List.map_append] at hpaths
  obtain ⟨first, last, rfl, hfirst, hlast⟩ := List.map_eq_append_iff.1 hpaths.symm
  -- The name leads to a path that an earlier one has led to.
  have hearlier : leadsTo? schema earlier ∈ first.map some := by
    rw [hfirst]
    exact List.mem_map_of_mem hmem
  obtain ⟨path, hpath, hleads⟩ := List.mem_map.1 hearlier
  refine ⟨first ++ path :: last, ?_, eraseDups_append_cons_of_mem hpath last⟩
  rw [List.map_append, List.map_append, List.map_cons, List.map_cons, hfirst, hlast, hleads, hsame]

end Request

open Example in
theorem Request.projects_forFilter_example :
    projectingOptions.countOnly = false ∧
      forFilter catalog stateTree projectingOptions = .ok projectingRequest ∧
      projectingRequest.Projects catalog projectingOptions.projection ∧
      ∀ before name after, projectingOptions.projection = before ++ after →
        (∃ earlier ∈ before, leadsTo? catalog earlier = leadsTo? catalog name) →
        forFilter catalog stateTree { projectingOptions with
          projection := before ++ name :: after } = .ok projectingRequest :=
  ⟨rfl, forFilter_projectingOptions, projects_forFilter rfl forFilter_projectingOptions⟩

end IndexedSearch
