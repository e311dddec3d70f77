import ListQuery.Endpoint
import ListQuery.Proofs.AcceptedParameters
import ListQuery.Proofs.FilterGroups
import ListQuery.Proofs.SearchOutcome
/-!
# The outcome of compiling a request

Only the search fields, which the caller names, can make the compilation of accepted parameters fail; the filter, the sort
and the field list of the request never do.  Main statement: `compile_outcome`.
-/
namespace ListQuery.Endpoint

variable {e : Endpoint} {settings : Settings} {given : List (String × Value)} {p : Parameters} {model : String}
  {searchFields : List String}

/-! ## The parts of a where clause -/

def found (e : Endpoint) (model query : String) (searchFields : List String) : Except Fault (List Condition) :=
  if query = "" || searchFields.isEmpty then .ok []
  else (e.registry.searchConditions (modeOf e.settings.searchMode) model (some query) searchFields).1

def kept (e : Endpoint) (model filter : String) : Except Fault (List Condition) :=
  if filter = "" then .ok [] else (e.registry.filterConditions (.str model) filter).map Prod.fst

theorem condition_eq (e : Endpoint) (model query : String) (searchFields : List String) (filter : String) :
    e.condition model query searchFields filter = e.found model query searchFields >>= fun found =>
      e.kept model filter >>= fun kept => .ok (.map (clause "OR" found ++ clause "AND" kept)) := by
  unfold condition found kept
  split <;> split <;> rfl

theorem found_eq_nil {query : String} (h : query = "" ∨ searchFields = []) : e.found model query searchFields = .ok [] := by
  obtain rfl | rfl := h <;> simp [found]

theorem found_eq_search {query : String} (hquery : query ≠ "") (hfields : searchFields ≠ []) :
    e.found model query searchFields =
      (e.registry.searchConditions (modeOf e.settings.searchMode) model (some query) searchFields).1 := by
  simp [found, hquery, hfields]

theorem exists_kept_eq_ok (typed : e.registry.hasTextTypes = true) (model filter : String) :
    ∃ kept, e.kept model filter = .ok kept := by
  unfold kept
  split
  · exact ⟨[], rfl⟩
  · obtain ⟨results, -, hrun⟩ := Registry.filterConditions_eq typed model filter
    exact ⟨results.filterMap Prod.fst, by rw [hrun]; rfl⟩

/-! ## Compilation -/

/-- **Accepted parameters compile as soon as the search gives its conditions**: no filter fails, and the sort was read
before. -/
theorem exists_compile_eq_ok (typed : e.registry.hasTextTypes = true)
    (accepted : Parameters.ofRequest settings given = .ok p) {conditions : List Condition}
    (h : e.found model p.query searchFields = .ok conditions) : ∃ d, e.compile model p searchFields = .ok d := by
  obtain ⟨kept, hkept⟩ := exists_kept_eq_ok typed model (p.filter.getD "")
  obtain ⟨orderBy, horder⟩ := (Parameters.ofRequest_eq_ok_iff.1 accepted).exists_ordering_eq_ok p.order.text
  exact ⟨_, by rw [compile, condition_eq, h, ok_bind, hkept, ok_bind, ok_bind, Descriptor.findMany, horder]; rfl⟩

theorem compile_eq_error {fault : Fault} (h : e.found model p.query searchFields = .error fault) :
    e.compile model p searchFields = .error fault := by
  rw [compile, condition_eq, h]
  rfl

/-- **The outcome of compiling a request.**  Accepted parameters compile, unless they ask for a search in fields that the
registry has not: of an unknown model, or at paths that cannot be searched, all of which are reported. -/
theorem compile_outcome (textual : e.registry.isTextual = true) (accepted : Parameters.ofRequest settings given = .ok p)
    (model : String) (searchFields : List String) :
    ∃ names available : List String, e.registry.modelNames = names.map .str ∧
      e.registry.searchableNames model = available.map .str ∧
      (∀ path, e.registry.isSearchable (.str model) (splitText '.' path) = .ok (e.registry.accepts model path)) ∧
      if p.query = "" ∨ searchFields = [] then ∃ d, e.compile model p searchFields = .ok d
      else if model ∉ names then e.compile model p searchFields = .error (.query (.unknownModel model names))
      else if e.registry.refused model searchFields ≠ [] then
        e.compile model p searchFields =
          .error (.query (.searchFields model (e.registry.refused model searchFields) available))
      else ∃ d, e.compile model p searchFields = .ok d := by
  obtain ⟨names, hnames⟩ := Registry.exists_modelNames textual
  obtain ⟨available, havailable⟩ := Registry.exists_searchableNames textual model
  have typed := Registry.hasTextTypes_of_isTextual textual
  refine ⟨names, available, hnames, havailable, Registry.isSearchable_eq_accepts typed model, ?_⟩
  split
  · rename_i hsilent
    exact exists_compile_eq_ok typed accepted (found_eq_nil hsilent)
  rename_i hsearch
  obtain ⟨hquery, hfields⟩ := not_or.1 hsearch
  split
  · rename_i hunknown
    refine compile_eq_error ?_
    rw [found_eq_search hquery hfields, Registry.searchConditions_of_unknown hnames hunknown]
  rename_i hknown
  have hmodel : .str model ∈ e.registry.modelNames := by
    rw [hnames]; exact List.mem_map_of_mem (not_not.1 hknown)
  split
  · rename_i hrefused
    refine compile_eq_error ?_
    rw [found_eq_search hquery hfields, Registry.searchConditions_of_refused textual hmodel havailable hrefused]
  rename_i hrefused
  obtain ⟨conditions, hconditions, -⟩ := Registry.searchConditions_of_accepted textual hmodel hfields
    (not_not.1 hrefused) (modeOf e.settings.searchMode) hquery
  have hfound : e.found model p.query searchFields = .ok conditions := by
    rw [found_eq_search hquery hfields, hconditions]
  exact exists_compile_eq_ok typed accepted hfound

/-- A request that searches, sorts by a JSON text, and filters by a pair that leads nowhere and an item that is no pair. -/
def orchardRequest : List (String × Value) :=
  [("query", .str "oak"), ("sort", .str "\x7b\"name\": \"asc\"\x7d"), ("filter", .str "height:12,ghost:1,height"),
    ("fields", .str "name,,place.label."), ("document", .str "true")]

def orchardParameters : Parameters where
  page := 1
  limit := 10
  order := .desc
  fields := some "name,,place.label."
  sort := some "\x7b\"name\": \"asc\"\x7d"
  query := "oak"
  document := true
  pagination := false
  count := false
  filter := some "height:12,ghost:1,height"
  groupBy := none

theorem ofRequest_orchardRequest : Parameters.ofRequest {} orchardRequest = .ok orchardParameters := by
  have hread : (Json.read "\x7b\"name\": \"asc\"\x7d").isOk = true := by decide +kernel
  obtain ⟨document, hdocument⟩ := exists_eq_ok_of_isOk hread
  rw [Parameters.ofRequest_eq_ok_iff]
  constructor
  case sort => exact Parameters.checkedM_eq_valid_iff.2 (.inr ⟨_, rfl, Parameters.checkSort_of_read hdocument⟩)
  all_goals rfl

/-- The same request compiles or not, as the search fields have it. -/
theorem compile_outcome_orchard :
    Registry.orchard.isTextual = true ∧ Parameters.ofRequest {} orchardRequest = .ok orchardParameters ∧
      (∃ d, compile ⟨.orchard, {}⟩ "Tree" orchardParameters ["name", "parent.name"] = .ok d) ∧
      compile ⟨.orchard, {}⟩ "Tree" orchardParameters ["place", "name", "place"] =
        .error (.query (.searchFields "Tree" ["place", "place"] ["name"])) := by
  have textual : Registry.orchard.isTextual = true := by decide
  have accepted := ofRequest_orchardRequest
  refine ⟨textual, accepted, ?_, ?_⟩
  · obtain ⟨names, available, hnames, -, -, h⟩ :=
      compile_outcome (e := ⟨.orchard, {}⟩) textual accepted "Tree" ["name", "parent.name"]
    obtain rfl : ["Tree"] = names := Value.map_str_injective hnames
    have hrefused : Registry.orchard.refused "Tree" ["name", "parent.name"] = [] := by decide +kernel
    rwa [if_neg (by decide), if_neg (by decide), hrefused, if_neg (by decide)] at h
  · obtain ⟨names, available, hnames, havailable, -, h⟩ :=
      compile_outcome (e := ⟨.orchard, {}⟩) textual accepted "Tree" ["place", "name", "place"]
    obtain rfl : ["Tree"] = names := Value.map_str_injective hnames
    obtain rfl : ["name"] = available := Value.map_str_injective havailable
    have hrefused : Registry.orchard.refused "Tree" ["place", "name", "place"] = ["place", "place"] := by decide +kernel
    rwa [if_neg (by decide), if_neg (by decide), hrefused, if_pos (by decide)] at h

end ListQuery.Endpoint
