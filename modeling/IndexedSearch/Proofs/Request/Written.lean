import IndexedSearch.Proofs.Request.Projecting
import IndexedSearch.Proofs.Request.Writing

/-!
# A request as it is written

Behind the conditions, the paths to project are written, each at the first name that leads to it,
with placeholders counted on from those of the conditions. What is written in one go then are all
three expressions of the request, and the tables that it has filled are the tables of the request.
-/

namespace IndexedSearch

open Expression (Atom Counter numberPaths pathText physicalPath)
open IndexedSearch.Filter (Clause)

namespace Writer

variable (schema : Schema)

/-- Writes the paths that names lead to, one after another, without those that were seen before. A
text that is no path cannot be written. -/
def paths (seen : List (List String)) : List String → Writer (List String)
  | [] => return []
  | name :: rest => do
    let path ← liftM (Filter.Path.ofText? name)
    let resolved := physicalPath schema path
    if resolved ∈ seen then paths seen rest
    else
      let text ← Writer.path schema path
      let texts ← paths (resolved :: seen) rest
      return text :: texts

/-- Writes the projection expression, if there is anything to project. Counting projects nothing. -/
def projection (options : Options) : Writer (Option String) :=
  if options.countOnly then return none
  else do
    let texts ← paths schema [] options.projection
    return if texts.isEmpty then none else some (", ".intercalate texts)

/-- Writes the key condition, the filter expression and the projection expression. -/
def expressions (tree : Filter.Tree Clause) (keys : Index.KeyTerms) (options : Options) :
    Writer ((Option String × Option String) × Option String) := do
  let conditions ← conditions schema tree keys
  let projection ← projection schema options
  return (conditions, projection)

variable {schema}

/-- Paths that were not seen before are written once each, with the next free numbers. -/
theorem paths_ofLists {names : List String} {resolved : List (List String)}
    (h : names.map (leadsTo? schema) = resolved.map some) (seen : List (List String))
    (before : List String) (values : List Wire.Value) :
    let added := (resolved.removeAll seen).eraseDups
    paths schema seen names (.ofLists before values) =
      some ((numberPaths before.length added).map pathText,
        .ofLists (before ++ added.flatten) values) := by
  dsimp only
  induction names generalizing resolved seen before with
  | nil =>
    rw [List.map_eq_nil_iff.1 h.symm]
    simp [paths, pure_apply, numberPaths]
  | cons name rest ih =>
    obtain ⟨_, others, rfl, hname, hothers⟩ := List.map_eq_cons_iff.1 h.symm
    obtain ⟨path, hpath, rfl⟩ := Option.map_eq_some_iff.1 hname.symm
    have hread (tables : Tables) :
        (liftM (Filter.Path.ofText? name) : Writer Filter.Path) tables = some (path, tables) := by
      rw [hpath]
      rfl
    rw [paths, bind_apply (hread _), eraseDups_removeAll_cons]
    split
    · -- The path was seen before, so nothing is written for the name.
      exact ih hothers.symm _ _
    · rw [bind_apply (path_apply path), bind_apply (ih hothers.symm _ _), pure_apply, numberPaths]
      simp

variable {tree : Filter.Tree Clause} {options : Options} {plan : Plan}

/-- Behind the atoms of a plan, its projection is written, and the tables are complete. -/
theorem projection_of_make (h : Plan.make schema tree options = .ok plan) :
    projection schema options (.ofAtoms plan.atoms) =
      some (plan.projectionText?, .ofLists plan.names plan.values) := by
  by_cases hcount : options.countOnly = true
  · rw [projection, if_pos hcount, pure_apply, Plan.projectionText?, Plan.names,
      Plan.projection_eq_nil_of_countOnly h hcount, List.flatten_nil, List.append_nil]
    rfl
  · obtain ⟨_, _, _, _, projected, hprojected, hplan⟩ := Plan.make_eq_ok_iff.1 h
    obtain ⟨resolved, hresolved, rfl⟩ :=
      (Plan.projectionPaths_eq_ok_iff (by simpa using hcount)).1 hprojected
    have hprojection : plan.projection = resolved.eraseDups := by rw [hplan]
    have hwritten := paths_ofLists hresolved [] (plan.atoms.flatMap Atom.path) plan.values
    rw [List.removeAll_nil, ← hprojection] at hwritten
    rw [projection, if_neg hcount, Tables.ofAtoms, ← Plan.values, bind_apply hwritten, pure_apply,
      Plan.projectionText?, Plan.numberedProjection, Counter.after, Counter.start, Nat.zero_add,
      Plan.names]
    cases plan.projection with
    | nil => rfl
    | cons first rest => rfl

/-- What is written are the three expressions of the request, and the tables that are filled on the
way are those of the request. -/
theorem expressions_of_forFilter {request : Request} {resolution : Index.Resolution}
    (h : Request.forFilter schema tree options = .ok request)
    (hresolve : options.index.resolve schema tree = .ok resolution) :
    expressions schema tree resolution.keys options ⟨[], []⟩ =
      some (((request.keyCondition, request.filter), request.projection),
        ⟨request.names, request.values⟩) := by
  obtain ⟨plan, hmake, rfl⟩ := Request.forFilter_eq_ok_iff.1 h
  rw [expressions, bind_apply (conditions_of_make hmake hresolve),
    bind_apply (projection_of_make hmake)]
  rfl

end Writer

end IndexedSearch
