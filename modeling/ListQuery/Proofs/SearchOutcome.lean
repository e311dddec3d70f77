import ListQuery.Proofs.Routes
/-!
# The outcome of a search

A search is refused for one of three reasons, which are looked for in a fixed order, and otherwise it gives one condition
for each path.  Main statements: `validateSearch_eq` (all paths that cannot be searched are reported together, with one
record), `exists_searchCondition_of_accepts` (a path that passes the validation gives a condition), and from these
`searchConditions_outcome`.
-/
namespace ListQuery

/-! ## Names -/

theorem Value.sameName_str_iff {v : Value} {s : String} : v.sameName (.str s) = true ↔ v = .str s := by
  constructor
  · intro h
    rw [sameName] at h
    · exact eq_str_of_sameKey h
    · simp
  · rintro rfl
    simp [sameName, sameKey]

theorem Value.map_str_injective : Function.Injective (List.map Value.str) :=
  List.map_injective_iff.2 fun _ _ => Value.str.inj

theorem Value.exists_eq_map_str : ∀ {vs : List Value}, vs.all Value.isText = true →
    ∃ texts : List String, vs = texts.map .str
  | [], _ => ⟨[], rfl⟩
  | v :: vs, h => by
    rw [List.all_cons, Bool.and_eq_true] at h
    obtain ⟨s, rfl⟩ := isText_iff.1 h.1
    obtain ⟨texts, rfl⟩ := exists_eq_map_str h.2
    exact ⟨s :: texts, rfl⟩

namespace Registry

variable {r : Registry}

theorem isModel_str_iff {model : String} : r.isModel (.str model) = true ↔ .str model ∈ r.modelNames := by
  rw [isModel, Table.get?, Entries.isSome_find?, List.any_eq_true]
  constructor
  · rintro ⟨v, hv, hs⟩
    exact Value.sameName_str_iff.1 hs ▸ hv
  · exact fun h => ⟨_, h, Value.sameName_str_iff.2 rfl⟩

theorem asTexts_map_str (texts : List String) : asTexts (texts.map .str) = .ok texts := by
  rw [asTexts, List.mapM_map, mapM_eq_ok_iff, List.forall₂_same]
  exact fun _ _ => rfl

theorem exists_modelNames (textual : r.isTextual = true) : ∃ names : List String, r.modelNames = names.map .str := by
  rw [isTextual, Bool.and_eq_true, Bool.and_eq_true, List.all_append, Bool.and_eq_true] at textual
  exact Value.exists_eq_map_str textual.1.1.1

theorem exists_searchableNames (textual : r.isTextual = true) (model : String) :
    ∃ available : List String, r.searchableNames model = available.map .str := by
  rw [isTextual, Bool.and_eq_true, Bool.and_eq_true] at textual
  unfold searchableNames
  split
  · rename_i m hm
    refine Value.exists_eq_map_str (List.all_eq_true.2 fun v hv => ?_)
    obtain ⟨f, hf, rfl⟩ := List.mem_map.1 hv
    have hall := List.all_eq_true.1 textual.1.2 m (mem_schemas_of_find? hm)
    exact List.all_eq_true.1 hall f (List.mem_filter.1 hf).1
  · exact ⟨[], rfl⟩

theorem hasTextTypes_of_isTextual (textual : r.isTextual = true) : r.hasTextTypes = true := by
  rw [isTextual, Bool.and_eq_true] at textual
  exact textual.2

/-! ## Validation -/

/-- Whether a dotted path leads from a model to a field that can be searched. -/
def accepts (r : Registry) (model path : String) : Bool :=
  match r.isSearchable (.str model) (splitText '.' path) with
  | .ok searchable => searchable
  | .error _ => false

theorem isSearchable_eq_accepts (typed : r.hasTextTypes = true) (model path : String) :
    r.isSearchable (.str model) (splitText '.' path) = .ok (r.accepts model path) := by
  obtain ⟨found, hfound⟩ := exists_fieldAt_eq_ok typed (splitText '.' path) model
  have h := isSearchable_of_fieldAt hfound
  rw [accepts, h]

def refused (r : Registry) (model : String) (paths : List String) : List String :=
  paths.filter fun path => !r.accepts model path

theorem invalidPaths_of_isSearchable {model : String} {paths : List String}
    (h : ∀ path ∈ paths, r.isSearchable (.str model) (splitText '.' path) = .ok (r.accepts model path)) :
    r.invalidPaths model paths = .ok (r.refused model paths) := by
  have hchecked : (paths.mapM fun path => do
      return (path, ← r.isSearchable (.str model) (splitText '.' path)) : Except Fault _) =
        .ok (paths.map fun path => (path, r.accepts model path)) :=
    mapM_eq_ok_map fun path hpath => by rw [h path hpath, ok_bind, pure_eq_ok]
  rw [invalidPaths, hchecked, ok_bind, pure_eq_ok, List.filterMap_map, refused, ← List.filterMap_eq_filter]
  congr 2
  funext path
  cases hp : r.accepts model path <;> simp [Option.guard, hp]

theorem invalidPaths_eq_refused (typed : r.hasTextTypes = true) (model : String) (paths : List String) :
    r.invalidPaths model paths = .ok (r.refused model paths) :=
  invalidPaths_of_isSearchable fun path _ => isSearchable_eq_accepts typed model path

/-- **All paths that cannot be searched are reported together**, in their order, and with one record. -/
theorem validateSearch_eq (typed : r.hasTextTypes = true) {model : String} {available : List String}
    (havailable : r.searchableNames model = available.map .str) (paths : List String) :
    r.validateSearch model paths =
      if r.refused model paths = [] then (.ok (), [])
      else (.error (.query (.searchFields model (r.refused model paths) available)),
        [rejectedPaths model (r.refused model paths)]) := by
  rw [validateSearch, invalidPaths_eq_refused typed, havailable, asTexts_map_str]
  cases r.refused model paths with
  | nil => rfl
  | cons => rw [if_neg (List.cons_ne_nil _ _)]; rfl

/-! ## Conditions -/

/-- **A path that passes the validation gives a condition**, though the condition is built on a walk of its own. -/
theorem exists_searchCondition_of_accepts {model path : String} (h : r.accepts model path = true) (mode : Option Value)
    (term : String) : ∃ c, r.searchCondition mode (.str model) (splitText '.' path) term = .ok (some c) := by
  unfold accepts isSearchable at h
  cases hfound : r.fieldAt (.str model) (splitText '.' path) with
  | error => rw [hfound] at h; exact absurd h Bool.false_ne_true
  | ok found =>
    rw [hfound] at h
    obtain ⟨f, rfl, hf⟩ := (Option.any_eq_true _ _).1 h
    obtain ⟨via, hvia⟩ := exists_route _ hfound
    exact ⟨_, by rw [searchCondition_of_route hvia, hf, if_pos rfl]⟩

theorem exists_conditions {model : String} (mode : Option Value) (term : String) : ∀ {paths : List String},
    r.refused model paths = [] → ∃ conditions : List Condition,
      List.Forall₂ (fun path c => r.searchCondition mode (.str model) (splitText '.' path) term = .ok (some c))
        paths conditions
  | [], _ => ⟨[], .nil⟩
  | path :: paths, h => by
    rw [refused, List.filter_eq_nil_iff, List.forall_mem_cons] at h
    obtain ⟨c, hc⟩ := exists_searchCondition_of_accepts (by simpa using h.1) mode term
    obtain ⟨conditions, hconditions⟩ := exists_conditions mode term (List.filter_eq_nil_iff.2 h.2)
    exact ⟨c :: conditions, .cons hc hconditions⟩

/-! ## The order of the checks -/

theorem searchConditions_of_unknown {model : String} {names : List String} (hnames : r.modelNames = names.map .str)
    (h : model ∉ names) (mode : Option Value) (term : Option String) (paths : List String) :
    r.searchConditions mode model term paths = (.error (.query (.unknownModel model names)), []) := by
  have hm : r.isModel (.str model) = false := by
    rw [Bool.eq_false_iff, Ne, isModel_str_iff, hnames, List.mem_map]
    rintro ⟨name, hname, he⟩
    exact h (Value.str.inj he ▸ hname)
  rw [searchConditions, hm, hnames, asTexts_map_str]
  rfl

theorem searchConditions_of_known {model : String} (h : .str model ∈ r.modelNames) (mode : Option Value)
    (term : Option String) {paths : List String} (hpaths : paths ≠ []) :
    r.searchConditions mode model term paths =
      ((r.validateSearch model paths).1 >>= fun _ =>
        if term.getD "" = "" then .ok []
        else
          (paths.mapM fun path => r.searchCondition mode (.str model) (splitText '.' path) (term.getD "")) >>= fun found =>
          if (found.filterMap id).isEmpty then .error (.query (.nothingToSearch model paths)) else .ok (found.filterMap id),
        (r.validateSearch model paths).2) := by
  rw [searchConditions, isModel_str_iff.2 h, Bool.not_true, if_neg Bool.false_ne_true,
    if_neg (by rwa [List.isEmpty_iff])]
  rfl

theorem searchConditions_of_refused (textual : r.isTextual = true) {model : String} (h : .str model ∈ r.modelNames)
    {available : List String} (havailable : r.searchableNames model = available.map .str) {paths : List String}
    (hrefused : r.refused model paths ≠ []) (mode : Option Value) (term : Option String) :
    r.searchConditions mode model term paths =
      (.error (.query (.searchFields model (r.refused model paths) available)),
        [rejectedPaths model (r.refused model paths)]) := by
  have hpaths : paths ≠ [] := by
    rintro rfl
    exact hrefused rfl
  rw [searchConditions_of_known h mode term hpaths,
    validateSearch_eq (hasTextTypes_of_isTextual textual) havailable, if_neg hrefused]
  rfl

theorem validateSearch_of_not_refused (typed : r.hasTextTypes = true) {model : String} {paths : List String}
    (hrefused : r.refused model paths = []) : r.validateSearch model paths = (.ok (), []) := by
  rw [validateSearch, invalidPaths_eq_refused typed, hrefused]

/-- **A search that passes the validation gives one condition for each path**, and never none at all. -/
theorem searchConditions_of_valid {model : String} (h : .str model ∈ r.modelNames) {paths : List String}
    (hpaths : paths ≠ []) (hrefused : r.refused model paths = []) (hvalid : r.validateSearch model paths = (.ok (), []))
    (mode : Option Value) {term : String} (hterm : term ≠ "") :
    ∃ conditions, r.searchConditions mode model (some term) paths = (.ok conditions, []) ∧
      List.Forall₂ (fun path c => r.searchCondition mode (.str model) (splitText '.' path) term = .ok (some c))
        paths conditions := by
  obtain ⟨conditions, hconditions⟩ := exists_conditions mode term hrefused
  have hfound : (paths.mapM fun path => r.searchCondition mode (.str model) (splitText '.' path) term) =
      .ok (conditions.map some) := by
    rw [mapM_eq_ok_iff, List.forall₂_map_right_iff]
    exact hconditions
  have hsome : conditions ≠ [] := by
    rintro rfl
    cases hconditions
    exact hpaths rfl
  refine ⟨conditions, ?_, hconditions⟩
  rw [searchConditions_of_known h mode (some term) hpaths, hvalid, ok_bind, Option.getD_some, if_neg hterm, hfound, ok_bind,
    List.filterMap_map, Function.id_comp, List.filterMap_some, if_neg (by rwa [List.isEmpty_iff])]

theorem searchConditions_of_not_refused (typed : r.hasTextTypes = true) {model : String} (h : .str model ∈ r.modelNames)
    {paths : List String} (hpaths : paths ≠ []) (hrefused : r.refused model paths = []) (mode : Option Value)
    {term : String} (hterm : term ≠ "") :
    ∃ conditions, r.searchConditions mode model (some term) paths = (.ok conditions, []) ∧
      List.Forall₂ (fun path c => r.searchCondition mode (.str model) (splitText '.' path) term = .ok (some c))
        paths conditions :=
  searchConditions_of_valid h hpaths hrefused (validateSearch_of_not_refused typed hrefused) mode hterm

theorem searchConditions_of_accepted (textual : r.isTextual = true) {model : String} (h : .str model ∈ r.modelNames)
    {paths : List String} (hpaths : paths ≠ []) (hrefused : r.refused model paths = []) (mode : Option Value)
    {term : String} (hterm : term ≠ "") :
    ∃ conditions, r.searchConditions mode model (some term) paths = (.ok conditions, []) ∧
      List.Forall₂ (fun path c => r.searchCondition mode (.str model) (splitText '.' path) term = .ok (some c))
        paths conditions :=
  searchConditions_of_not_refused (hasTextTypes_of_isTextual textual) h hpaths hrefused mode hterm

/-- **The outcome of a search.**  The model must be one of the models; there must be a path; all paths must be searchable,
and those that are not are reported in order, with one record; and with a term each path gives its own condition, so that
a search never ends without one. -/
theorem searchConditions_outcome (textual : r.isTextual = true) (mode : Option Value) (model : String)
    (term : Option String) (paths : List String) :
    ∃ names available : List String, r.modelNames = names.map .str ∧ r.searchableNames model = available.map .str ∧
      (∀ path, r.isSearchable (.str model) (splitText '.' path) = .ok (r.accepts model path)) ∧
      if model ∉ names then
        r.searchConditions mode model term paths = (.error (.query (.unknownModel model names)), [])
      else if paths = [] then
        r.searchConditions mode model term paths = (.error (.query (.nothingToSearch model [])), [])
      else if r.refused model paths ≠ [] then
        r.searchConditions mode model term paths =
          (.error (.query (.searchFields model (r.refused model paths) available)),
            [rejectedPaths model (r.refused model paths)])
      else if term = none ∨ term = some "" then
        r.searchConditions mode model term paths = (.ok [], [])
      else
        ∃ t conditions, term = some t ∧ r.searchConditions mode model term paths = (.ok conditions, []) ∧
          List.Forall₂ (fun path c => r.searchCondition mode (.str model) (splitText '.' path) t = .ok (some c))
            paths conditions := by
  obtain ⟨names, hnames⟩ := exists_modelNames textual
  obtain ⟨available, havailable⟩ := exists_searchableNames textual model
  have typed := hasTextTypes_of_isTextual textual
  refine ⟨names, available, hnames, havailable, isSearchable_eq_accepts typed model, ?_⟩
  split
  · rename_i hunknown
    exact searchConditions_of_unknown hnames hunknown mode term paths
  rename_i hknown
  have hmodel : .str model ∈ r.modelNames := by
    rw [hnames]; exact List.mem_map_of_mem (not_not.1 hknown)
  split
  · rename_i hnone
    rw [hnone, searchConditions, isModel_str_iff.2 hmodel]
    rfl
  rename_i hpaths
  split
  · rename_i hrefused
    exact searchConditions_of_refused textual hmodel havailable hrefused mode term
  rename_i hrefused
  split
  · rename_i hterm
    rw [searchConditions_of_known hmodel mode term hpaths, validateSearch_eq typed havailable,
      if_pos (not_not.1 hrefused), ok_bind]
    obtain rfl | rfl := hterm <;> rfl
  rename_i hterm
  obtain ⟨t, rfl⟩ : ∃ t, term = some t := Option.ne_none_iff_exists'.1 fun h => hterm (.inl h)
  have ht : t ≠ "" := fun h => hterm (.inr (by rw [h]))
  obtain ⟨conditions, hsearch, hconditions⟩ :=
    searchConditions_of_accepted textual hmodel hpaths (not_not.1 hrefused) mode ht
  exact ⟨t, conditions, rfl, hsearch, hconditions⟩

/-- Two of the paths end on no field that can be searched, and the one that is given twice is reported twice. -/
theorem searchConditions_outcome_orchard :
    orchard.isTextual = true ∧
      orchard.searchConditions none "Tree" (some "oak") ["place", "parent.name", "children.tags", "place"] =
        (.error (.query (.searchFields "Tree" ["place", "children.tags", "place"] ["name"])),
          [⟨.warning, .search, "Rejected search fields for Tree: place, children.tags, place"⟩]) := by
  have textual : orchard.isTextual = true := by decide
  obtain ⟨names, available, hnames, havailable, -, h⟩ :=
    searchConditions_outcome textual none "Tree" (some "oak") ["place", "parent.name", "children.tags", "place"]
  obtain rfl : ["Tree"] = names := Value.map_str_injective hnames
  obtain rfl : ["name"] = available := Value.map_str_injective havailable
  have hrefused : orchard.refused "Tree" ["place", "parent.name", "children.tags", "place"] =
      ["place", "children.tags", "place"] := by decide +kernel
  rw [if_neg (by decide), if_neg (by decide), hrefused, if_pos (by decide)] at h
  exact ⟨textual, h⟩

end Registry
end ListQuery
