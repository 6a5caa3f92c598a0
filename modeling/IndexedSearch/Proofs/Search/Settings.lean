import IndexedSearch.Proofs.Request.Making
import IndexedSearch.Search.Basic

/-!
# Settings of a search

The calls that shape a search are steps of its filter, or each sets one option. Steps are followed
in their order, and of the calls that set an option the last one counts; without one, the option is
what the table says. So calls of different kinds may be interleaved in any way.
-/

namespace IndexedSearch

/-! ## What a call sets -/

namespace SearchCall

/-- The step of the filter that a call is. -/
def step? : SearchCall → Option Filter.Step
  | .filterStep step => some step
  | _ => none

/-- The choice of an index that a call makes, by name or by descriptor. -/
def choice? : SearchCall → Option Index.Choice
  | .usingIndex name => some (.named name)
  | .usingDescriptor descriptor => some (.given descriptor)
  | _ => none

def limit? : SearchCall → Option UInt32
  | .limit bound => some bound
  | _ => none

def consistentRead? : SearchCall → Option Bool
  | .consistentRead consistent => some consistent
  | _ => none

def order? : SearchCall → Option Order
  | .order direction => some direction
  | _ => none

def projection? : SearchCall → Option (List String)
  | .select names => some names
  | _ => none

def startKey? : SearchCall → Option Wire.Key
  | .startKey key => some key
  | _ => none

/-- The call asks for a count. -/
def isCount : SearchCall → Bool
  | .count => true
  | _ => false

end SearchCall

/-- What the last of the calls that set something sets it to. -/
def lastSetting? {α : Type} (read? : SearchCall → Option α) (calls : List SearchCall) : Option α :=
  (calls.filterMap read?).getLast?

/-- The steps of the filter, in their order. -/
def filterSteps (calls : List SearchCall) : List Filter.Step := calls.filterMap SearchCall.step?

/-- The options that calls leave a search with, each looked up by itself. -/
def Options.ofCalls (defaults : Defaults) (calls : List SearchCall) : Options :=
  { index := (lastSetting? SearchCall.choice? calls).getD .automatic
    limit := (lastSetting? SearchCall.limit? calls).or defaults.pageLimit
    consistentRead :=
      (lastSetting? SearchCall.consistentRead? calls).getD defaults.consistentRead
    order := lastSetting? SearchCall.order? calls
    projection := (lastSetting? SearchCall.projection? calls).getD []
    countOnly := calls.any SearchCall.isCount
    startKey := lastSetting? SearchCall.startKey? calls }

/-- The calls have the same steps of the filter, and the same last setting of every option. -/
structure SameSettings (calls others : List SearchCall) : Prop where
  steps : filterSteps calls = filterSteps others
  choice : lastSetting? SearchCall.choice? calls = lastSetting? SearchCall.choice? others
  limit : lastSetting? SearchCall.limit? calls = lastSetting? SearchCall.limit? others
  consistentRead :
    lastSetting? SearchCall.consistentRead? calls = lastSetting? SearchCall.consistentRead? others
  order : lastSetting? SearchCall.order? calls = lastSetting? SearchCall.order? others
  projection :
    lastSetting? SearchCall.projection? calls = lastSetting? SearchCall.projection? others
  count : calls.any SearchCall.isCount = others.any SearchCall.isCount
  startKey : lastSetting? SearchCall.startKey? calls = lastSetting? SearchCall.startKey? others

theorem SameSettings.ofCalls_eq {calls others : List SearchCall} (h : SameSettings calls others)
    (defaults : Defaults) : Options.ofCalls defaults calls = Options.ofCalls defaults others := by
  unfold Options.ofCalls
  rw [h.choice, h.limit, h.consistentRead, h.order, h.projection, h.count, h.startKey]

theorem lastSetting?_cons {α : Type} (read? : SearchCall → Option α) (call : SearchCall)
    (calls : List SearchCall) :
    lastSetting? read? (call :: calls) = (lastSetting? read? calls).or (read? call) := by
  unfold lastSetting?
  cases hcall : read? call with
  | none => rw [List.filterMap_cons_none hcall, Option.or_none]
  | some value => rw [List.filterMap_cons_some hcall, List.getLast?_cons, Option.or_some]

/-! ## Following calls -/

namespace Search

variable {α : Type}

theorem applyAll_cons (search : Search) (call : SearchCall) (calls : List SearchCall) :
    search.applyAll (call :: calls) = (search.apply call).applyAll calls := rfl

/-- An option that every call either sets or leaves alone is as the last call that sets it says. -/
theorem setting_applyAll (read? : SearchCall → Option α) (setting : Search → Option α)
    (hstep : ∀ search call, setting (search.apply call) = (read? call).or (setting search))
    (search : Search) (calls : List SearchCall) :
    setting (search.applyAll calls) = (lastSetting? read? calls).or (setting search) := by
  induction calls generalizing search with
  | nil => rfl
  | cons call rest ih => rw [applyAll_cons, ih, hstep, lastSetting?_cons, Option.or_assoc]

/-- The same for an option that always has a value. -/
theorem value_applyAll (read? : SearchCall → Option α) (value : Search → α)
    (hstep : ∀ search call, value (search.apply call) = (read? call).getD (value search))
    (search : Search) (calls : List SearchCall) :
    value (search.applyAll calls) = (lastSetting? read? calls).getD (value search) := by
  have hsome := setting_applyAll read? (fun search ↦ some (value search))
    (fun search call ↦ by rw [Option.or_some, hstep]) search calls
  rw [Option.or_some] at hsome
  exact Option.some.inj hsome

theorem table_applyAll (search : Search) (calls : List SearchCall) :
    (search.applyAll calls).table = search.table := by
  induction calls generalizing search with
  | nil => rfl
  | cons call rest ih =>
    rw [applyAll_cons, ih]
    cases call <;> rfl

/-- Of all calls, the filter follows just its own steps. -/
theorem filter_applyAll (search : Search) (calls : List SearchCall) :
    (search.applyAll calls).filter = search.filter.applyAll (filterSteps calls) := by
  induction calls generalizing search with
  | nil => rfl
  | cons call rest ih =>
    rw [applyAll_cons, ih]
    cases call <;> rfl

/-- Asking for a count cannot be taken back. -/
theorem countOnly_applyAll (search : Search) (calls : List SearchCall) :
    (search.applyAll calls).options.countOnly =
      (search.options.countOnly || calls.any SearchCall.isCount) := by
  induction calls generalizing search with
  | nil => exact (Bool.or_false _).symm
  | cons call rest ih =>
    have hstep : (search.apply call).options.countOnly =
        (search.options.countOnly || call.isCount) := by
      cases call <;> simp [apply, SearchCall.isCount]
    rw [applyAll_cons, ih, hstep, List.any_cons, Bool.or_assoc]

/-- Calls leave a search of a table with the options that they set last. -/
theorem options_applyAll (table : Table) (calls : List SearchCall) :
    ((ofTable table).applyAll calls).options = Options.ofCalls table.defaults calls := by
  have hindex := value_applyAll SearchCall.choice? (fun search ↦ search.options.index)
    (by rintro search ⟨⟩ <;> rfl) (ofTable table) calls
  have hlimit := setting_applyAll SearchCall.limit? (fun search ↦ search.options.limit)
    (by rintro search ⟨⟩ <;> rfl) (ofTable table) calls
  have hconsistent := value_applyAll SearchCall.consistentRead?
    (fun search ↦ search.options.consistentRead) (by rintro search ⟨⟩ <;> rfl) (ofTable table) calls
  have horder := setting_applyAll SearchCall.order? (fun search ↦ search.options.order)
    (by rintro search ⟨⟩ <;> rfl) (ofTable table) calls
  have hprojection := value_applyAll SearchCall.projection?
    (fun search ↦ search.options.projection) (by rintro search ⟨⟩ <;> rfl) (ofTable table) calls
  have hcount := countOnly_applyAll (ofTable table) calls
  have hstart := setting_applyAll SearchCall.startKey? (fun search ↦ search.options.startKey)
    (by rintro search ⟨⟩ <;> rfl) (ofTable table) calls
  calc
    _ = Options.mk _ _ _ _ _ _ _ := rfl
    _ = Options.ofCalls table.defaults calls := by
      rw [hindex, hlimit, hconsistent, horder, hprojection, hcount, hstart]
      simp [Options.ofCalls, ofTable]

/-- The request of a search is that of the steps of its filter, built by themselves, with the
options as they were set last. How steps and settings are interleaved makes no difference. -/
theorem request_applyAll (table : Table) (calls : List SearchCall) :
    ((ofTable table).applyAll calls).request =
        (do
          let tree ← (Filter.Tree.ofSteps (filterSteps calls)).mapError SearchError.usage
          Request.forFilter table.schema tree (Options.ofCalls table.defaults calls)) ∧
      ∀ others, SameSettings calls others →
        ((ofTable table).applyAll others).request = ((ofTable table).applyAll calls).request := by
  have hrequest (calls : List SearchCall) : ((ofTable table).applyAll calls).request = (do
      let tree ← (Filter.Tree.ofSteps (filterSteps calls)).mapError SearchError.usage
      Request.forFilter table.schema tree (Options.ofCalls table.defaults calls)) := by
    rw [request, filter_applyAll, table_applyAll, options_applyAll]
    rfl
  refine ⟨hrequest calls, ?_⟩
  intro others hsame
  rw [hrequest, hrequest, hsame.steps, hsame.ofCalls_eq]

/-! ## An example -/

/-- A table that reads consistently unless its searches say otherwise. -/
def consistentTable : Table := (Table.ofSchema Example.schema).withDefaults ⟨true, some 100⟩

/-- Steps of a filter among settings, some of which are replaced later on. -/
def scatteredCalls : List SearchCall :=
  [.usingIndex "totals", .order .ascending, .limit 5] ++
    (Example.steps.take 1).map .filterStep ++
    [.usingDescriptor (.primary Example.schema), .limit 3, .select ["paid"]] ++
    (Example.steps.drop 1).map .filterStep ++ [.order .descending, .count]

/-- The same steps and the settings that count, in another order. -/
def gatheredCalls : List SearchCall :=
  Example.steps.map .filterStep ++
    [.count, .select ["paid"], .usingDescriptor (.primary Example.schema), .order .descending,
      .limit 3]

theorem sameSettings_scatteredCalls : SameSettings scatteredCalls gatheredCalls :=
  ⟨rfl, rfl, rfl, rfl, rfl, rfl, rfl, rfl⟩

theorem request_applyAll_example :
    SameSettings scatteredCalls gatheredCalls ∧
      ((ofTable consistentTable).applyAll gatheredCalls).request =
        ((ofTable consistentTable).applyAll scatteredCalls).request ∧
      ((ofTable consistentTable).applyAll scatteredCalls).request = .ok
        { Example.request with
          consistentRead := some true
          select := some .count
          limit := some 3
          forward := some false } :=
  ⟨sameSettings_scatteredCalls,
    (request_applyAll consistentTable scatteredCalls).2 _ sameSettings_scatteredCalls, rfl⟩

end Search

end IndexedSearch
