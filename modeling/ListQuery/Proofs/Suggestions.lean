import ListQuery.Proofs.CloseMatches
import ListQuery.Proofs.CompositeLayers
import ListQuery.Proofs.FilterSpelling
/-!
# Suggestions

The error about search paths offers names, which are collected path by path and kept once.  They are close matches of texts
with the names of searchable fields, and no path of the search has been looked up for them; still each of them is a path
that can be searched.  Main statements: `advice_searchFields` (what is offered, and in which order) and
`Registry.suggestions_of_make`.
-/
namespace ListQuery

open Similarity (Suggests closeMatches standing)

/-! ## What is offered -/

theorem addNew_eraseDups (seen texts : List String) : addNew seen.eraseDups texts = (seen ++ texts).eraseDups := by
  induction texts generalizing seen with
  | nil => simp [addNew]
  | cons text texts ih =>
    have happended : addNew seen.eraseDups (text :: texts) = addNew (appended text seen.eraseDups) texts := rfl
    rw [happended, ← eraseDups_concat, ih, List.append_assoc, List.singleton_append]

theorem suggestions_searchFields (model : String) (invalid available : List String) :
    QueryError.suggestions (.searchFields model invalid available) =
      (invalid.flatMap fun path => closeMatches path (sortTexts available)).eraseDups := by
  suffices h : ∀ (paths seen : List String),
      paths.foldl (fun seen path => addNew seen (closeMatches path (sortTexts available))) seen.eraseDups =
        (seen ++ paths.flatMap fun path => closeMatches path (sortTexts available)).eraseDups from h invalid []
  intro paths
  induction paths with
  | nil => simp
  | cons path paths ih =>
    intro seen
    rw [List.foldl_cons, addNew_eraseDups, ih, List.append_assoc, List.flatMap_cons]

/-- **One name is offered before another**: the first path that suggests either of the two suggests this one, and if it
suggests both, this one stands higher. -/
def Precedes (paths available : List String) (a b : String) : Prop :=
  ∃ before path behind, paths = before ++ path :: behind ∧
    (∀ earlier ∈ before, ¬Suggests earlier available a ∧ ¬Suggests earlier available b) ∧
    Suggests path available a ∧ (Suggests path available b → standing path b < standing path a)

/-- **The names to offer for some paths**: what is suggested for any of them, once, in the order of the paths. -/
structure Advice (paths available offered : List String) : Prop where
  once : offered.Nodup
  mem_iff (name : String) : name ∈ offered ↔ ∃ path ∈ paths, Suggests path available name
  ordered : offered.Pairwise (Precedes paths available)

section

variable {available : List String}

theorem mem_closeMatches_sortTexts_iff (h : available.Nodup) {path name : String} :
    name ∈ closeMatches path (sortTexts available) ↔ Suggests path available name := by
  have hperm := sortTexts_perm available
  rw [Similarity.mem_closeMatches_iff (hperm.nodup_iff.2 h), Similarity.suggests_of_perm hperm]

theorem precedes_cons {path : String} {paths : List String} {a b : String} (ha : ¬Suggests path available a)
    (hb : ¬Suggests path available b) (h : Precedes paths available a b) : Precedes (path :: paths) available a b := by
  obtain ⟨before, first, behind, rfl, hbefore, hfirst⟩ := h
  exact ⟨path :: before, first, behind, rfl, List.forall_mem_cons.2 ⟨⟨ha, hb⟩, hbefore⟩, hfirst⟩

theorem precedes_of_idxOf_lt (h : available.Nodup) {a b : String} : ∀ {paths : List String},
    a ∈ (paths.flatMap fun path => closeMatches path (sortTexts available)) →
    (paths.flatMap fun path => closeMatches path (sortTexts available)).idxOf a <
      (paths.flatMap fun path => closeMatches path (sortTexts available)).idxOf b → Precedes paths available a b
  | [], ha, _ => nomatch ha
  | path :: paths, ha, hlt => by
    rw [List.flatMap_cons] at ha hlt
    by_cases ha' : a ∈ closeMatches path (sortTexts available)
    · refine ⟨[], path, paths, rfl, nofun, (mem_closeMatches_sortTexts_iff h).1 ha', fun hb => ?_⟩
      have hb' := (mem_closeMatches_sortTexts_iff h).2 hb
      rw [List.idxOf_append_of_mem ha', List.idxOf_append_of_mem hb'] at hlt
      -- the matches of a single path are sorted
      have hsorted : (closeMatches path (sortTexts available)).Pairwise fun c d => standing path d < standing path c :=
        Similarity.pairwise_closeMatches ((sortTexts_perm available).nodup_iff.2 h)
      have hpair := List.pairwise_iff_getElem.1 hsorted _ _ (List.idxOf_lt_length_iff.2 ha')
        (List.idxOf_lt_length_iff.2 hb') hlt
      rwa [List.getElem_idxOf, List.getElem_idxOf] at hpair
    · have hb' : b ∉ closeMatches path (sortTexts available) := by
        intro hb'
        rw [List.idxOf_append_of_notMem ha', List.idxOf_append_of_mem hb'] at hlt
        have := List.idxOf_lt_length_iff.2 hb'
        omega
      rw [List.idxOf_append_of_notMem ha', List.idxOf_append_of_notMem hb'] at hlt
      have hrest := (List.mem_append.1 ha).resolve_left ha'
      exact precedes_cons (fun hs => ha' ((mem_closeMatches_sortTexts_iff h).2 hs))
        (fun hs => hb' ((mem_closeMatches_sortTexts_iff h).2 hs))
        (precedes_of_idxOf_lt h hrest (Nat.lt_of_add_lt_add_left hlt))

theorem advice_searchFields (h : available.Nodup) (model : String) (invalid : List String) :
    Advice invalid available (QueryError.suggestions (.searchFields model invalid available)) := by
  rw [suggestions_searchFields]
  constructor
  case once => exact nodup_eraseDups _
  case mem_iff =>
    intro name
    simp only [List.mem_eraseDups, List.mem_flatMap, mem_closeMatches_sortTexts_iff h]
  case ordered =>
    refine (pairwise_eraseDups _).imp_of_mem fun ha _ hlt => ?_
    exact precedes_of_idxOf_lt h (List.mem_eraseDups.1 ha) hlt

theorem advice_unknownModel (h : available.Nodup) (model : String) :
    Advice [model] available (QueryError.suggestions (.unknownModel model available)) := by
  have hnodup := (sortTexts_perm available).nodup_iff.2 h
  constructor
  case once => exact Similarity.nodup_closeMatches hnodup
  case mem_iff =>
    intro name
    simp only [List.mem_singleton, exists_eq_left, ← mem_closeMatches_sortTexts_iff h]
    rfl
  case ordered =>
    refine (Similarity.pairwise_closeMatches hnodup).imp_of_mem fun ha _ hlt => ?_
    exact ⟨[], model, [], rfl, nofun, (mem_closeMatches_sortTexts_iff h).1 ha, fun _ => hlt⟩

end

/-! ## Names of fields -/

/-- **A model whose fields can be told apart in a path**: their names are distinct texts without dots. -/
def Model.HasPlainNames (m : Model) : Prop :=
  ∃ names : List String, m.fieldNames = names.map .str ∧ names.Nodup ∧ ∀ name ∈ names, '.' ∉ name.toList

def Model.searchableNames (m : Model) : List Value := (m.fields.filter Field.isSearchable).map Field.name

namespace Model

variable {m : Model}

theorem HasPlainNames.nodup_fieldNames (h : m.HasPlainNames) : m.fieldNames.Nodup := by
  obtain ⟨names, hnames, hnodup, -⟩ := h
  rw [hnames]
  exact hnodup.map fun _ _ => Value.str.inj

theorem HasPlainNames.field?_of_mem (h : m.HasPlainNames) {f : Field} (hf : f ∈ m.fields) {name : String}
    (hname : f.name = .str name) : m.field? name = some f := by
  obtain ⟨before, behind, hfields⟩ := List.append_of_mem hf
  have hnodup := h.nodup_fieldNames
  rw [fieldNames, hfields, List.map_append, List.map_cons] at hnodup
  have hlast := (List.nodup_cons.1 hnodup.of_append_right).1
  rw [field?_eq_some_iff]
  refine ⟨before, behind, hfields, hname, fun g hg hgname => hlast ?_⟩
  rw [hname, ← hgname]
  exact List.mem_map_of_mem hg

theorem HasPlainNames.exists_searchableNames (h : m.HasPlainNames) :
    ∃ available : List String, m.searchableNames = available.map .str ∧ available.Nodup ∧
      ∀ name ∈ available, '.' ∉ name.toList := by
  obtain ⟨names, hnames, hnodup, hdots⟩ := id h
  have hsub : m.searchableNames.Sublist m.fieldNames := List.filter_sublist.map _
  obtain ⟨available, havailable⟩ : ∃ available : List String, m.searchableNames = available.map .str := by
    refine Value.exists_eq_map_str (List.all_eq_true.2 fun v hv => ?_)
    obtain ⟨name, -, rfl⟩ := List.mem_map.1 (hnames ▸ hsub.mem hv)
    rfl
  refine ⟨available, havailable, ?_, fun name hname => hdots name ?_⟩
  · have := h.nodup_fieldNames.sublist hsub
    rw [havailable] at this
    exact this.of_map
  · have hmem : .str name ∈ m.fieldNames := hsub.mem (havailable ▸ List.mem_map_of_mem hname)
    rw [hnames, List.mem_map] at hmem
    obtain ⟨_, hname', he⟩ := hmem
    exact Value.str.inj he ▸ hname'

end Model

namespace Registry

variable {r : Registry} {model : String} {m : Model}

theorem searchableNames_of_find? (h : r.find? (.str model) = some m) : r.searchableNames model = m.searchableNames := by
  rw [searchableNames, h, Model.searchableNames]

theorem accepts_of_mem_searchableNames (hfind : r.find? (.str model) = some m) (hplain : m.HasPlainNames) {name : String}
    (hdot : '.' ∉ name.toList) (h : .str name ∈ m.searchableNames) : r.accepts model name = true := by
  obtain ⟨f, hf, hname⟩ := List.mem_map.1 h
  rw [List.mem_filter] at hf
  have hfield : r.fieldAt (.str model) [name] = .ok (some f) := by
    rw [fieldAt_singleton, field?_str, hfind, Option.bind_some, hplain.field?_of_mem hf.1 hname]
  have hsearchable := isSearchable_of_fieldAt hfield
  rw [accepts, splitText_of_notMem hdot, hsearchable]
  exact hf.2

theorem not_cutShort_of_notMem {path : String} (hdot : '.' ∉ path.toList) {schema : Value} :
    ¬r.CutShort schema (splitText '.' path) := by
  rw [splitText_of_notMem hdot]
  exact nofun

theorem validateSearch_singleton {name : String} (hdot : '.' ∉ name.toList) (h : r.accepts model name = true) :
    r.validateSearch model [name] = (.ok (), []) := by
  apply validateSearch_of_accepted
  · intro path hpath
    rw [List.mem_singleton.1 hpath]
    exact not_cutShort_of_notMem hdot
  · simp [refused, h]

theorem nodup_modelNames {models composites : List Model} {enums : Table (List Value)}
    (hmake : make models composites enums = .ok r) {names : List String} (hnames : r.modelNames = names.map .str) :
    names.Nodup := by
  obtain rfl := eq_of_make hmake
  have hpairwise : (names.map Value.str).Pairwise fun k l => k.sameName l = false :=
    hnames ▸ Table.pairwise_names_ofEntries (models.map fun m => (Model.name m, m))
  rw [List.pairwise_map] at hpairwise
  refine hpairwise.imp fun {k l} hsame (heq : k = l) => ?_
  rw [heq, Value.sameName_str_str, beq_self_eq_true] at hsame
  cases hsame

theorem searchConditions_eq_unknownModel_iff {mode : Option Value} {term : Option String} {paths names : List String} :
    (r.searchConditions mode model term paths).1 = .error (.query (.unknownModel model names)) ↔
      .str model ∉ r.modelNames ∧ r.modelNames = names.map .str := by
  rw [searchConditions_eq_error_iff]
  constructor
  · rintro (⟨hmodel, h⟩ | h | h | ⟨-, -, -, h⟩)
    · cases h with
      | told hnames => exact ⟨hmodel, hnames⟩
    · cases h
  · exact fun ⟨hmodel, hnames⟩ => .unknown hmodel (.told hnames)

def complaint (r : Registry) (model : String) (paths available : List String) : QueryError :=
  .searchFields model (r.refused model paths) available

/-- **What is offered for search paths that are refused**: names of searchable fields, and each of them can be searched. -/
structure OffersFields (r : Registry) (model : String) (m : Model) (paths available : List String) : Prop where
  names : m.searchableNames = available.map .str
  raised : (∀ path ∈ paths, ¬r.CutShort (.str model) (splitText '.' path)) → r.refused model paths ≠ [] →
    (r.validateSearch model paths).1 = .error (.query (r.complaint model paths available)) ∧
      (.str model ∈ r.modelNames → ∀ mode term, (r.searchConditions mode model term paths).1 =
        .error (.query (r.complaint model paths available)))
  only {error : QueryError} : (r.validateSearch model paths).1 = .error (.query error) →
    error = r.complaint model paths available
  advice : Advice (r.refused model paths) available (r.complaint model paths available).suggestions
  usable : ∀ name ∈ (r.complaint model paths available).suggestions,
    r.validateSearch model [name] = (.ok (), []) ∧ name ∉ r.refused model paths

theorem offersFields (hfind : r.find? (.str model) = some m) (hplain : m.HasPlainNames) (paths : List String) :
    ∃ available, r.OffersFields model m paths available := by
  obtain ⟨available, hnames, hnodup, hdots⟩ := hplain.exists_searchableNames
  have hsearchable : r.searchableNames model = available.map .str := (searchableNames_of_find? hfind).trans hnames
  have hadvice : Advice (r.refused model paths) available (r.complaint model paths available).suggestions :=
    advice_searchFields hnodup model _
  refine ⟨available, ?_⟩
  constructor
  case names => exact hnames
  case raised =>
    intro hfollowed hrefused
    have hvalid : (r.validateSearch model paths).1 = .error (.query (r.complaint model paths available)) :=
      validateSearch_eq_error_iff.2 (.inr ⟨hfollowed, hrefused, .told hsearchable⟩)
    have hpaths : paths ≠ [] := by
      rintro rfl
      exact hrefused rfl
    exact ⟨hvalid, fun hmodel mode term => (searchConditions_of_known_eq_error_iff hmodel hpaths mode term).2 hvalid⟩
  case only =>
    intro error h
    rcases validateSearch_eq_error_iff.1 h with ⟨hkey, -⟩ | ⟨-, -, hrefusal⟩
    · cases hkey
    · cases hrefusal with
      | told htexts => rw [complaint, Value.map_str_injective (htexts.symm.trans hsearchable)]
  case advice => exact hadvice
  case usable =>
    intro name hname
    obtain ⟨_, -, hsuggests⟩ := (hadvice.mem_iff name).1 hname
    have hdot := hdots name hsuggests.mem
    have haccepts : r.accepts model name = true :=
      accepts_of_mem_searchableNames hfind hplain hdot (hnames ▸ List.mem_map_of_mem hsuggests.mem)
    exact ⟨validateSearch_singleton hdot haccepts, by simp [refused, haccepts]⟩

/-- **The suggestions of both errors are the best that there are.**  Where paths are refused in a model with plain names,
they are the names of searchable fields that are close to one of these paths, in the order of the paths, and each of them
could have been given instead.  Where a model is unknown, they are names of models. -/
theorem suggestions_of_make {models composites : List Model} {enums : Table (List Value)}
    (hmake : make models composites enums = .ok r) :
    (∀ model m, r.find? (.str model) = some m → m.HasPlainNames → ∀ paths,
      ∃ available, r.OffersFields model m paths available) ∧
    ∀ mode model term paths names,
      ((r.searchConditions mode model term paths).1 = .error (.query (.unknownModel model names)) ↔
        .str model ∉ r.modelNames ∧ r.modelNames = names.map .str) ∧
      ((r.searchConditions mode model term paths).1 = .error (.query (.unknownModel model names)) →
        Advice [model] names (QueryError.suggestions (.unknownModel model names)) ∧
          ∀ name ∈ QueryError.suggestions (.unknownModel model names), .str name ∈ r.modelNames) := by
  refine ⟨fun model m => offersFields, fun mode model term paths names => ⟨searchConditions_eq_unknownModel_iff, ?_⟩⟩
  intro h
  obtain ⟨-, hnames⟩ := searchConditions_eq_unknownModel_iff.1 h
  have hadvice := advice_unknownModel (nodup_modelNames hmake hnames) model
  refine ⟨hadvice, fun name hname => ?_⟩
  obtain ⟨_, -, hsuggests⟩ := (hadvice.mem_iff name).1 hname
  rw [hnames]
  exact List.mem_map_of_mem hsuggests.mem

/-- The height of a lime is a number and cannot be searched. -/
def limeModel : Model :=
  ⟨.str "Lime", [⟨.str "name", .scalar (.str "String"), false⟩, ⟨.str "height", .scalar (.str "Int"), false⟩,
    ⟨.str "species", .enum (.str "Species"), false⟩], false⟩

theorem hasPlainNames_limeModel : limeModel.HasPlainNames :=
  ⟨["name", "height", "species"], rfl, by decide, by decide⟩

def avenue : Registry := ⟨.ofModels [limeModel], [], []⟩

/-- Three paths are refused; a name is offered for two of them, and none for the one that names the height as it is. -/
theorem suggestions_of_make_avenue :
    make [limeModel] [] [] = .ok avenue ∧ avenue.find? (.str "Lime") = some limeModel ∧ limeModel.HasPlainNames ∧
      (avenue.searchConditions none "Lime" none ["nmae", "height", "speces"]).1 =
        .error (.query (avenue.complaint "Lime" ["nmae", "height", "speces"] ["name", "species"])) ∧
      (∀ name, name ∈ (avenue.complaint "Lime" ["nmae", "height", "speces"] ["name", "species"]).suggestions ↔
        name = "name" ∨ name = "species") ∧
      avenue.validateSearch "Lime" ["name"] = (.ok (), []) ∧
      (avenue.searchConditions none "Limes" none []).1 = .error (.query (.unknownModel "Limes" ["Lime"])) ∧
      "Lime" ∈ QueryError.suggestions (.unknownModel "Limes" ["Lime"]) := by
  have hmake : make [limeModel] [] [] = .ok avenue := rfl
  have hfind : avenue.find? (.str "Lime") = some limeModel := rfl
  obtain ⟨hfields, hmodels⟩ := suggestions_of_make hmake
  obtain ⟨available, h⟩ := hfields "Lime" limeModel hfind hasPlainNames_limeModel ["nmae", "height", "speces"]
  obtain rfl : ["name", "species"] = available := Value.map_str_injective h.names
  have hrefused : avenue.refused "Lime" ["nmae", "height", "speces"] = ["nmae", "height", "speces"] := by decide +kernel
  have hname : Suggests "nmae" ["name", "species"] "name" :=
    (Similarity.suggests_iff_of_few (by decide)).2 ⟨by decide, Similarity.threshold_le_iff.1 (by decide +kernel)⟩
  have hspecies : Suggests "speces" ["name", "species"] "species" :=
    (Similarity.suggests_iff_of_few (by decide)).2 ⟨by decide, Similarity.threshold_le_iff.1 (by decide +kernel)⟩
  have hlime : Suggests "Limes" ["Lime"] "Lime" :=
    (Similarity.suggests_iff_of_few (by decide)).2 ⟨by decide, Similarity.threshold_le_iff.1 (by decide +kernel)⟩
  have hoffered : ∀ name, name ∈ (avenue.complaint "Lime" ["nmae", "height", "speces"] ["name", "species"]).suggestions ↔
      name = "name" ∨ name = "species" := by
    intro name
    rw [h.advice.mem_iff, hrefused]
    constructor
    · rintro ⟨_, -, hsuggests⟩
      simpa using hsuggests.mem
    · rintro (rfl | rfl)
      · exact ⟨"nmae", by decide, hname⟩
      · exact ⟨"speces", by decide, hspecies⟩
  have hfollowed : ∀ path ∈ ["nmae", "height", "speces"], ¬avenue.CutShort (.str "Lime") (splitText '.' path) :=
    fun path hpath => not_cutShort_of_notMem ((by decide : ∀ path ∈ ["nmae", "height", "speces"], '.' ∉ path.toList)
      path hpath)
  have hraised := h.raised hfollowed (by rw [hrefused]; exact List.cons_ne_nil _ _)
  obtain ⟨hunknown, hadvice⟩ := hmodels none "Limes" none [] ["Lime"]
  have hmodelNames : avenue.modelNames = [.str "Lime"] := rfl
  have hmissing := hunknown.2 ⟨by simp [hmodelNames], rfl⟩
  refine ⟨hmake, hfind, hasPlainNames_limeModel, hraised.2 (by simp [hmodelNames]) none none, hoffered, ?_, hmissing, ?_⟩
  · exact (h.usable "name" ((hoffered "name").2 (.inl rfl))).1
  · exact ((hadvice hmissing).1.mem_iff "Lime").2 ⟨"Limes", by decide, hlime⟩

end Registry
end ListQuery
