import ListQuery.Proofs.Catalogue
import ListQuery.Proofs.DocumentFaults
import ListQuery.Proofs.RequestFaults
/-!
# Requests to a loaded registry

A document is loaded with whatever names and types its entries have, and it is a request that finds out if one of them does
not fit.  If no type is a list or an object, every path can be followed and every filter gives conditions
(`HasPlainTypes`); if moreover all names are texts, a search is refused in its own terms or not at all (`HasTextNames`).
Main statement: `Registry.ofDocument_requests`, which also says what becomes of requests to other registries;
`ofDocument_unfit` has documents for which nothing of this holds.
-/
namespace ListQuery

namespace Document

def fieldEntries (d : Value) : List Value :=
  (d.contentsUnder "models" ++ d.contentsUnder "types").flatMap (Value.contentsUnder "fields")

def hasPlainTypes (d : Value) : Bool := (fieldEntries d).all fun raw => !(raw.part "type").isCompound

/-- Whether the names of models and fields are texts.  Those of composites are not told to a caller. -/
def hasTextNames (d : Value) : Bool :=
  (d.contentsUnder "models" ++ fieldEntries d).all fun raw => (raw.part "name").isText

theorem isJson_of_mem_fieldEntries {d raw : Value} (json : d.isJson = true) (h : raw ∈ fieldEntries d) :
    raw.isJson = true := by
  obtain ⟨model, hmodel, hraw⟩ := List.mem_flatMap.1 h
  have hjson : model.isJson = true := by
    rcases List.mem_append.1 hmodel with hmodel | hmodel
    · exact Value.isJson_of_mem_contentsUnder json "models" model hmodel
    · exact Value.isJson_of_mem_contentsUnder json "types" model hmodel
  exact Value.isJson_of_mem_contentsUnder hjson "fields" raw hraw

end Document

/-! ## The entries of a registry -/

open Document

theorem exists_of_mem_of_forall₂ {α β : Type} {reads : α → β → Prop} {as : List α} {bs : List β}
    (h : List.Forall₂ reads as bs) : ∀ b ∈ bs, ∃ a ∈ as, reads a b := by
  induction h with
  | nil => exact fun b hb => nomatch hb
  | cons hab _ ih =>
    intro b hb
    rcases List.mem_cons.1 hb with rfl | hb
    · exact ⟨_, List.mem_cons_self, hab⟩
    · obtain ⟨a, ha, hr⟩ := ih b hb
      exact ⟨a, List.mem_cons_of_mem _ ha, hr⟩

theorem mem_of_lastNamed? {name raw : Value} {raws : List Value} (h : lastNamed? name raws = some raw) : raw ∈ raws :=
  List.mem_reverse.1 (List.mem_of_find?_eq_some h)

theorem Field.Reads.type_eq {raw : Value} {f : Field} (h : f.Reads raw) : f.type = raw.part "type" := by
  have hkind := h.kind
  unfold Field.type
  generalize (raw.part "kind").display.toLower = word, f.kind = kind at hkind
  cases hkind <;> rfl

namespace Registry

variable {d : Value} {r : Registry}

theorem Reads.exists_entry (h : Reads d r) {name : Value} {m : Model} (hm : r.find? name = some m) :
    ∃ isComposite, ∃ raw ∈ d.contentsUnder "models" ++ d.contentsUnder "types", m.Reads isComposite raw := by
  cases hmodel : lastNamed? name (d.contentsUnder "models") with
  | some raw =>
    obtain ⟨m', hm', hreads⟩ := h.model hmodel
    obtain rfl := Option.some.inj (hm.symm.trans hm')
    exact ⟨false, raw, List.mem_append_left _ (mem_of_lastNamed? hmodel), hreads⟩
  | none =>
    cases hcomposite : lastNamed? name (d.contentsUnder "types") with
    | some raw =>
      obtain ⟨m', hm', hreads⟩ := h.composite hmodel hcomposite
      obtain rfl := Option.some.inj (hm.symm.trans hm')
      exact ⟨true, raw, List.mem_append_right _ (mem_of_lastNamed? hcomposite), hreads⟩
    | none => cases hm.symm.trans (h.unknown hmodel hcomposite)

theorem Reads.exists_fieldEntry (h : Reads d r) {name : Value} {m : Model} (hm : r.find? name = some m) {f : Field}
    (hf : f ∈ m.fields) : ∃ raw ∈ fieldEntries d, f.Reads raw := by
  obtain ⟨_, model, hmodel, hreads⟩ := h.exists_entry hm
  obtain ⟨raw, hraw, hfield⟩ := exists_of_mem_of_forall₂ hreads.fields f hf
  exact ⟨raw, List.mem_flatMap.2 ⟨model, hmodel, hraw⟩, hfield⟩

/-! ## Types -/

theorem Reads.isHashable_type (h : Reads d r) (json : d.isJson = true) (plain : hasPlainTypes d = true) {schema : Value}
    {name : String} {f : Field} (hf : r.field? schema name = .ok (some f)) : f.type.isHashable = true := by
  have hkey : schema.isHashable = true := by
    by_contra hno
    cases hf.symm.trans (field?_of_not_isHashable (Bool.eq_false_iff.2 hno) name)
  rw [field?_of_isHashable hkey, Except.ok.injEq] at hf
  obtain ⟨m, hm, hf⟩ := Option.bind_eq_some_iff.1 hf
  obtain ⟨raw, hraw, hreads⟩ := h.exists_fieldEntry hm (List.mem_reverse.1 (List.mem_of_find?_eq_some hf))
  have hjson := Value.isJson_part (isJson_of_mem_fieldEntries json hraw) "type"
  rw [hreads.type_eq, Value.isHashable_eq hjson]
  exact List.all_eq_true.1 plain raw hraw

theorem Reads.not_cutShort (h : Reads d r) (json : d.isJson = true) (plain : hasPlainTypes d = true) {schema : Value}
    {path : List String} : ¬r.CutShort schema path := by
  intro hcut
  induction hcut with
  | here hg _ hno => exact absurd (h.isHashable_type json plain hg) (Bool.eq_false_iff.1 hno)
  | behind _ _ _ ih => exact ih

theorem Route.exists_field? {schema : Value} {path : List String} {via : List Field} {f : Field}
    (h : Route r schema path via f) : ∃ schema name, r.field? schema name = .ok (some f) := by
  induction h with
  | last hf => exact ⟨_, _, hf⟩
  | step _ _ _ ih => exact ih

theorem Reads.not_unfilterable (h : Reads d r) (json : d.isJson = true) (plain : hasPlainTypes d = true) {schema : Value}
    {path : List String} : ¬r.Unfilterable schema path := by
  rintro (hcut | ⟨via, f, hroute, hunreadable⟩)
  · exact h.not_cutShort json plain hcut
  · obtain ⟨_, _, hf⟩ := hroute.exists_field?
    have hkey := h.isHashable_type json plain hf
    unfold Field.isUnreadable at hunreadable
    unfold Field.type at hkey
    split at hunreadable
    · rename_i hkind
      rw [hkind] at hkey
      simp [hkey] at hunreadable
    · cases hunreadable

/-! ## Names -/

theorem mem_names_ofEntries {α : Type} {entries : List (Value × α)} {name : Value}
    (h : name ∈ (Table.ofEntries entries).names) : name ∈ entries.map Prod.fst := by
  rw [Table.ofEntries, Table.names_foldl_put entries [] [] rfl] at h
  exact Entries.mem_of_mem_keys_collect h

theorem mem_names_ofModels {models : List Model} {name : Value} (h : name ∈ (Table.ofModels models).names) :
    ∃ m ∈ models, m.name = name := by
  have hentry := mem_names_ofEntries h
  rwa [List.map_map, List.mem_map] at hentry

theorem exists_make_of_ofDocument {document : Value} {r : Registry} (loaded : ofDocument document = .ok r) :
    ∃ entries inner models composites enums, document = .map entries ∧
      ((Value.lookup? "datamodel" entries).getD document).entries = .ok inner ∧
      (listUnder "models" inner >>= fun raws => raws.mapM (Model.ofDocument false)) = .ok models ∧
      (listUnder "types" inner >>= fun raws => raws.mapM (Model.ofDocument true)) = .ok composites ∧
      make models composites enums = .ok r := by
  unfold ofDocument at loaded
  split at loaded
  · simp only [bind_eq_ok_iff] at loaded
    obtain ⟨inner, hinner, raws, hraws, models, hmodels, raws', hraws', composites, hcomposites, _, -, enums, -, hmake⟩ :=
      loaded
    exact ⟨_, inner, models, composites, _, rfl, hinner, bind_eq_ok_iff.2 ⟨raws, hraws, hmodels⟩,
      bind_eq_ok_iff.2 ⟨raws', hraws', hcomposites⟩, hmake⟩
  · cases loaded

theorem exists_entry_of_mem_modelNames {document : Value} (json : document.isJson = true) {r : Registry}
    (loaded : ofDocument document = .ok r) {name : Value} (hname : name ∈ r.modelNames) :
    ∃ raw ∈ (datamodel document).contentsUnder "models", raw.part "name" = name := by
  have hjson := isJson_datamodel json
  obtain ⟨entries, inner, models, composites, enums, rfl, hinner, hmodels, -, hmake⟩ := exists_make_of_ofDocument loaded
  obtain rfl := eq_of_make hmake
  obtain ⟨m, hm, rfl⟩ := mem_names_ofModels hname
  have hd : datamodel (.map entries) = .map inner := eq_map_of_entries hinner
  rw [hd] at hjson ⊢
  have hloads := listUnder_loads hjson (fun raw hraw => Model.ofDocument_loads hraw false) "models"
  obtain ⟨raw, hraw, hreads⟩ := exists_of_mem_of_forall₂ (hloads.reading_of hmodels) m hm
  exact ⟨raw, hraw, hreads.name.symm⟩

theorem isText_of_mem_modelNames {document : Value} (json : document.isJson = true) {r : Registry}
    (loaded : ofDocument document = .ok r) (named : hasTextNames (datamodel document) = true) :
    ∀ name ∈ r.modelNames, name.isText = true := by
  intro name hname
  obtain ⟨raw, hraw, rfl⟩ := exists_entry_of_mem_modelNames json loaded hname
  exact List.all_eq_true.1 named raw (List.mem_append_left _ hraw)

theorem Reads.isText_of_mem_searchableNames (h : Reads d r) (named : hasTextNames d = true) (model : String) :
    ∀ name ∈ r.searchableNames model, name.isText = true := by
  intro name hname
  unfold searchableNames at hname
  split at hname
  · rename_i m hm
    obtain ⟨f, hf, rfl⟩ := List.mem_map.1 hname
    obtain ⟨raw, hraw, hreads⟩ := h.exists_fieldEntry hm (List.mem_filter.1 hf).1
    rw [hreads.name]
    exact List.all_eq_true.1 named raw (List.mem_append_right _ hraw)
  · cases hname

/-! ## Requests -/

inductive IsSearchError : QueryError → Prop
  | unknownModel (model : String) (names : List String) : IsSearchError (.unknownModel model names)
  | nothingToSearch (model : String) (paths : List String) : IsSearchError (.nothingToSearch model paths)
  | searchFields (model : String) (invalid available : List String) : IsSearchError (.searchFields model invalid available)

/-- **What becomes of requests about a model**, by path, by filter and by search: which of them end in a fault, and which
documents keep them from it. -/
structure Requests (d : Value) (r : Registry) (model : String) : Prop where
  path_fault : ∀ path fault,
    r.fieldAt (.str model) path = .error fault ↔ fault = .unfit .key ∧ r.CutShort (.str model) path
  filter_fault : ∀ filter fault, r.filterConditions (.str model) filter = .error fault ↔
    fault = .unfit .key ∧ ∃ pair ∈ FilterPairs.given filter, r.Unfilterable (.str model) (splitText '.' pair.1)
  search_fault : ∀ mode term paths fault,
    (r.searchConditions mode model term paths).1 = .error fault ↔ r.SearchFault model paths fault
  path_found : hasPlainTypes d = true → ∀ path, ∃ found, r.fieldAt (.str model) path = .ok found
  filter_built : hasPlainTypes d = true → ∀ filter, ∃ result, r.filterConditions (.str model) filter = .ok result
  search_refused : hasPlainTypes d = true → hasTextNames d = true → ∀ mode term paths fault,
    (r.searchConditions mode model term paths).1 = .error fault → ∃ error, fault = .query error ∧ IsSearchError error

theorem Refusal.eq_query {names : List Value} {error : List String → QueryError} {fault : Fault}
    (h : Refusal names error fault) (texts : ∀ name ∈ names, name.isText = true) :
    ∃ texts, fault = .query (error texts) := by
  cases h with
  | @told told _ => exact ⟨told, rfl⟩
  | untold hno =>
    obtain ⟨name, hname, hno⟩ := hno
    exact absurd (texts name hname) (Bool.eq_false_iff.1 hno)

theorem ofDocument_requests {document : Value} (json : document.isJson = true) {r : Registry}
    (loaded : ofDocument document = .ok r) (model : String) : Requests (datamodel document) r model := by
  have hreads := (ofDocument_outcome json).2 r loaded
  have hjson := isJson_datamodel json
  constructor
  case path_fault => exact fun path fault => fieldAt_eq_error_iff path rfl
  case filter_fault => exact fun filter fault => filterConditions_eq_error_iff
  case search_fault => exact fun mode term paths fault => searchConditions_eq_error_iff mode term
  case path_found => exact fun plain path => exists_fieldAt_of_not_cutShort rfl (hreads.not_cutShort hjson plain)
  case filter_built =>
    intro plain filter
    cases hfilter : r.filterConditions (.str model) filter with
    | ok result => exact ⟨result, rfl⟩
    | error fault =>
      obtain ⟨-, pair, -, hno⟩ := filterConditions_eq_error_iff.1 hfilter
      exact absurd hno (hreads.not_unfilterable hjson plain)
  case search_refused =>
    intro plain named mode term paths fault h
    cases (searchConditions_eq_error_iff mode term).1 h with
    | unknown _ hrefusal =>
      obtain ⟨names, rfl⟩ := hrefusal.eq_query (isText_of_mem_modelNames json loaded named)
      exact ⟨_, rfl, .unknownModel model names⟩
    | nothing => exact ⟨_, rfl, .nothingToSearch model []⟩
    | cutShort _ hcut =>
      obtain ⟨path, -, hcut⟩ := hcut
      exact absurd hcut (hreads.not_cutShort hjson plain)
    | refused _ _ _ hrefusal =>
      obtain ⟨available, rfl⟩ := hrefusal.eq_query (hreads.isText_of_mem_searchableNames named model)
      exact ⟨_, rfl, .searchFields model _ available⟩

theorem ofDocument_requests_grove :
    grove.isJson = true ∧ ∃ r, ofDocument grove = .ok r ∧
      (∃ found, r.fieldAt (.str "Tree") ["children", "age"] = .ok found) ∧
      (∃ result, r.filterConditions (.str "Tree") "children.age:1" = .ok result) ∧
      ∃ error, (r.searchConditions none "Bush" (some "oak") []).1 = .error (.query error) ∧ IsSearchError error := by
  have json : grove.isJson = true := by decide
  have plain : hasPlainTypes (datamodel grove) = true := by decide
  have named : hasTextNames (datamodel grove) = true := by decide
  obtain ⟨r, hr⟩ := exists_eq_ok_of_isOk (show (ofDocument grove).isOk = true by decide +kernel)
  have htree := ofDocument_requests json hr "Tree"
  have hbush : ((ofDocument grove >>= fun r => (r.searchConditions none "Bush" (some "oak") []).1)).isOk = false := by
    decide +kernel
  rw [hr, ok_bind] at hbush
  obtain ⟨fault, hfault⟩ := exists_eq_error_of_isOk hbush
  obtain ⟨error, rfl, herror⟩ := (ofDocument_requests json hr "Bush").search_refused plain named _ _ _ _ hfault
  exact ⟨json, r, hr, htree.path_found plain _, htree.filter_built plain _, error, hfault, herror⟩

/-- A tree whose age is of a listed type, and whose place is one of two. -/
def graft : Value :=
  treeOf (.list [.map [("name", .str "age"), ("kind", .str "scalar"), ("type", .list [.str "Int"])],
    .map [("name", .str "place"), ("kind", .str "object"), ("type", .list [.str "Spot", .str "Plot"])]])

/-- **Documents that are loaded and then cannot be asked**: by a field of a listed type, behind one, and about a model that
is not there where another one has a number for its name. -/
theorem ofDocument_unfit :
    (∃ r, ofDocument graft = .ok r ∧ r.filterConditions (.str "Tree") "age:1" = .error (.unfit .key) ∧
        r.fieldAt (.str "Tree") ["place", "label"] = .error (.unfit .key)) ∧
      (∃ r, ofDocument (.map [("models", .list [.map [("name", .int 5)]])]) = .ok r ∧
        (r.searchConditions none "Tree" none []).1 = .error (.unfit .text)) ∧
      ¬∀ document : Value, document.isJson = true → ∀ r, ofDocument document = .ok r → ∀ model : String,
        (∀ path, ∃ found, r.fieldAt (.str model) path = .ok found) ∧
          (∀ filter, ∃ result, r.filterConditions (.str model) filter = .ok result) ∧
          ∀ mode term paths fault, (r.searchConditions mode model term paths).1 = .error fault →
            ∃ error, fault = .query error ∧ IsSearchError error := by
  obtain ⟨r, hr⟩ := exists_eq_ok_of_isOk (show (ofDocument graft).isOk = true by decide +kernel)
  have hfilter : (ofDocument graft >>= fun r => r.filterConditions (.str "Tree") "age:1").isOk = false := by decide +kernel
  have hpath : (ofDocument graft >>= fun r => r.fieldAt (.str "Tree") ["place", "label"]).isOk = false := by decide +kernel
  rw [hr, ok_bind] at hfilter hpath
  obtain ⟨fault, hfilter⟩ := exists_eq_error_of_isOk hfilter
  obtain ⟨rfl, -⟩ := filterConditions_eq_error_iff.1 hfilter
  obtain ⟨fault, hpath⟩ := exists_eq_error_of_isOk hpath
  obtain ⟨rfl, -⟩ := (fieldAt_eq_error_iff _ rfl).1 hpath
  refine ⟨⟨r, hr, hfilter, hpath⟩, ⟨_, rfl, rfl⟩, fun h => ?_⟩
  obtain ⟨result, hresult⟩ := (h graft (by decide) r hr "Tree").2.1 "age:1"
  cases hfilter.symm.trans hresult

end Registry
end ListQuery
