import ListQuery.Proofs.CompileOutcome
/-!
# The entries of a where clause

To the executor, an empty list of alternatives is met by no row and an empty list of conditions by every row; so a where
clause has an entry only where there is a condition to put into it.  Main statements: `of_searchConditions` (a search that
gives anything gives a condition for each of its fields), `filterConditions_ne_nil_iff` (a filter gives conditions exactly
if one of its keys leads somewhere), and from these `condition_clauses`.
-/
namespace ListQuery

namespace Registry

variable {r : Registry} {model : String}

/-! ## The search -/

theorem refused_eq_nil_of_validateSearch (typed : r.hasTextTypes = true) {paths : List String}
    (h : (r.validateSearch model paths).1 = .ok ()) : r.refused model paths = [] := by
  rw [validateSearch, invalidPaths_eq_refused typed] at h
  cases hrefused : r.refused model paths with
  | nil => rfl
  | cons path rest =>
    rw [hrefused] at h
    obtain ⟨_, -, h⟩ := bind_eq_ok_iff.1 h
    cases h

/-- **A search that gives anything gives a condition for each of its fields**: no field is left out. -/
theorem of_searchConditions (typed : r.hasTextTypes = true) {mode : Option Value} {term : String} (hterm : term ≠ "")
    {paths : List String} (hpaths : paths ≠ []) {conditions : List Condition}
    (h : (r.searchConditions mode model (some term) paths).1 = .ok conditions) :
    .str model ∈ r.modelNames ∧ r.refused model paths = [] ∧
      List.Forall₂ (fun path c => r.searchCondition mode (.str model) (splitText '.' path) term = .ok (some c))
        paths conditions := by
  have hmodel : .str model ∈ r.modelNames := by
    rw [← isModel_str_iff]
    by_contra hunknown
    rw [searchConditions, Bool.eq_false_iff.2 hunknown] at h
    obtain ⟨_, -, h⟩ := bind_eq_ok_iff.1 h
    cases h
  have hrefused : r.refused model paths = [] := by
    rw [searchConditions_of_known hmodel mode (some term) hpaths] at h
    obtain ⟨_, hvalid, -⟩ := bind_eq_ok_iff.1 h
    exact refused_eq_nil_of_validateSearch typed hvalid
  obtain ⟨found, hfound, hconditions⟩ := searchConditions_of_not_refused typed hmodel hpaths hrefused mode hterm
  rw [hfound, Except.ok.injEq] at h
  exact ⟨hmodel, hrefused, h ▸ hconditions⟩

/-! ## The filter -/

def resolvesSome (r : Registry) (model filter : String) : Bool :=
  (Entries.keys (FilterPairs.ofText filter)).any (r.resolves model)

/-- **A filter gives conditions exactly if one of its keys leads somewhere.** -/
theorem filterConditions_ne_nil_iff (typed : r.hasTextTypes = true) {filter : String} {conditions : List Condition}
    {records : List Record} (h : r.filterConditions (.str model) filter = .ok (conditions, records)) :
    conditions ≠ [] ↔ r.resolvesSome model filter = true := by
  obtain ⟨results, houtcomes, hrun⟩ := filterConditions_eq typed model filter
  obtain ⟨rfl, -⟩ := Prod.mk.inj (Except.ok.inj (h.symm.trans hrun))
  have hlength := (gathers_of_outcomes houtcomes).length_eq
  rw [← List.length_pos_iff, ← hlength, List.length_pos_iff, Ne, List.filter_eq_nil_iff, resolvesSome, Entries.keys,
    List.any_map, List.any_eq_true]
  push Not
  rfl

end Registry

namespace Endpoint

variable {e : Endpoint} {model query filter : String} {searchFields : List String}

/-! ## The two lists -/

theorem found_ne_nil_iff (typed : e.registry.hasTextTypes = true) {found : List Condition}
    (h : e.found model query searchFields = .ok found) : found ≠ [] ↔ query ≠ "" ∧ searchFields ≠ [] := by
  by_cases hsilent : query = "" ∨ searchFields = []
  · rw [found_eq_nil hsilent, Except.ok.injEq] at h
    rw [← h, ← not_or]
    simp [hsilent]
  · obtain ⟨hquery, hfields⟩ := not_or.1 hsilent
    rw [found_eq_search hquery hfields] at h
    have hlength := (Registry.of_searchConditions typed hquery hfields h).2.2.length_eq
    rw [← List.length_pos_iff, ← hlength, List.length_pos_iff]
    exact ⟨fun _ => ⟨hquery, hfields⟩, fun h => h.2⟩

theorem exists_found_iff (typed : e.registry.hasTextTypes = true) : (∃ found, e.found model query searchFields = .ok found) ↔
    query = "" ∨ searchFields = [] ∨ .str model ∈ e.registry.modelNames ∧ e.registry.refused model searchFields = [] := by
  by_cases hsilent : query = "" ∨ searchFields = []
  · rw [← or_assoc]
    exact ⟨fun _ => .inl hsilent, fun _ => ⟨[], found_eq_nil hsilent⟩⟩
  · obtain ⟨hquery, hfields⟩ := not_or.1 hsilent
    rw [found_eq_search hquery hfields]
    constructor
    · rintro ⟨found, h⟩
      obtain ⟨hmodel, hrefused, -⟩ := Registry.of_searchConditions typed hquery hfields h
      exact .inr (.inr ⟨hmodel, hrefused⟩)
    · rintro (h | h | ⟨hmodel, hrefused⟩)
      · exact absurd h hquery
      · exact absurd h hfields
      · obtain ⟨found, hfound, -⟩ := Registry.searchConditions_of_not_refused typed hmodel hfields hrefused
          (modeOf e.settings.searchMode) hquery
        exact ⟨found, by rw [hfound]⟩

theorem kept_eq_filterConditions : e.kept model filter = (e.registry.filterConditions (.str model) filter).map Prod.fst := by
  unfold kept
  split
  · rename_i hempty
    subst hempty
    rfl
  · rfl

theorem kept_eq_ok_iff {kept : List Condition} : e.kept model filter = .ok kept ↔
    ∃ records, e.registry.filterConditions (.str model) filter = .ok (kept, records) := by
  rw [kept_eq_filterConditions]
  cases e.registry.filterConditions (.str model) filter with
  | error fault => simp [Except.map]
  | ok result => simp [Except.map, Prod.ext_iff]

/-! ## The entries -/

theorem keys_clauses (found kept : List Condition) : Entries.keys (clause "OR" found ++ clause "AND" kept) =
    (if found ≠ [] then ["OR"] else []) ++ if kept ≠ [] then ["AND"] else [] := by
  cases found <;> cases kept <;> rfl

theorem lookup?_or_clauses (found kept : List Condition) :
    Value.lookup? "OR" (clause "OR" found ++ clause "AND" kept) =
      if found ≠ [] then some (.list (Condition.documents found)) else none := by
  cases found <;> cases kept <;> rfl

theorem lookup?_and_clauses (found kept : List Condition) :
    Value.lookup? "AND" (clause "OR" found ++ clause "AND" kept) =
      if kept ≠ [] then some (.list (Condition.documents kept)) else none := by
  cases found <;> cases kept <;> rfl

theorem condition_eq_ok_iff {w : Value} : e.condition model query searchFields filter = .ok w ↔
    ∃ found kept, e.found model query searchFields = .ok found ∧ e.kept model filter = .ok kept ∧
      w = .map (clause "OR" found ++ clause "AND" kept) := by
  simp only [condition_eq, bind_eq_ok_iff, Except.ok.injEq]
  constructor
  · rintro ⟨found, hfound, kept, hkept, rfl⟩
    exact ⟨found, kept, hfound, hkept, rfl⟩
  · rintro ⟨found, kept, hfound, hkept, rfl⟩
    exact ⟨found, hfound, kept, hkept, rfl⟩

/-- **The entries of a where clause**: those it has, what they hold, and what they depend on. -/
structure Clauses (e : Endpoint) (model query : String) (searchFields : List String) (filter : String)
    (entries : List (String × Value)) : Prop where
  keys : Entries.keys entries = (if query ≠ "" ∧ searchFields ≠ [] then ["OR"] else []) ++
    if e.registry.resolvesSome model filter then ["AND"] else []
  alternatives : ∀ document, Value.lookup? "OR" entries = some document → ∃ documents, documents ≠ [] ∧
    document = .list documents ∧
      List.Forall₂ (fun path d => ∃ c, e.registry.searchCondition (modeOf e.settings.searchMode) (.str model)
        (splitText '.' path) query = .ok (some c) ∧ d = c.document) searchFields documents
  conditions : ∀ document, Value.lookup? "AND" entries = some document → ∃ documents conditions records, documents ≠ [] ∧
    document = .list documents ∧ e.registry.filterConditions (.str model) filter = .ok (conditions, records) ∧
      documents = conditions.map Condition.document ∧
        List.Forall₂ (e.registry.Writes model)
          ((FilterPairs.ofText filter).filter fun group => e.registry.resolves model group.1) documents
  alternatives_alone : ∀ other others, e.condition model query searchFields other = .ok (.map others) →
    Value.lookup? "OR" others = Value.lookup? "OR" entries
  conditions_alone : ∀ term fields others, e.condition model term fields filter = .ok (.map others) →
    Value.lookup? "AND" others = Value.lookup? "AND" entries

theorem clauses_of_lists (typed : e.registry.hasTextTypes = true) {found kept : List Condition}
    (hfound : e.found model query searchFields = .ok found) (hkept : e.kept model filter = .ok kept) :
    Clauses e model query searchFields filter (clause "OR" found ++ clause "AND" kept) := by
  obtain ⟨records, hrun⟩ := kept_eq_ok_iff.1 hkept
  constructor
  case keys =>
    rw [keys_clauses]
    simp only [found_ne_nil_iff typed hfound, Registry.filterConditions_ne_nil_iff typed hrun]
  case alternatives =>
    intro document h
    rw [lookup?_or_clauses, Option.ite_none_right_eq_some] at h
    obtain ⟨hne, hdocument⟩ := h
    obtain ⟨hquery, hfields⟩ := (found_ne_nil_iff typed hfound).1 hne
    rw [found_eq_search hquery hfields] at hfound
    have hconditions := (Registry.of_searchConditions typed hquery hfields hfound).2.2
    rw [Condition.documents_eq] at hdocument
    refine ⟨found.map Condition.document, by simpa using hne, (Option.some.inj hdocument).symm, ?_⟩
    rw [List.forall₂_map_right_iff]
    exact hconditions.imp fun path c hc => ⟨c, hc, rfl⟩
  case conditions =>
    intro document h
    rw [lookup?_and_clauses, Option.ite_none_right_eq_some, Condition.documents_eq] at h
    obtain ⟨results, houtcomes, hrun'⟩ := Registry.filterConditions_eq typed model filter
    obtain ⟨rfl, -⟩ := Prod.mk.inj (Except.ok.inj (hrun.symm.trans hrun'))
    have hwrites := Registry.writes_of_outcomes houtcomes
    rw [Condition.documents_eq] at hwrites
    exact ⟨_, _, records, by simpa using h.1, (Option.some.inj h.2).symm, hrun, rfl, hwrites⟩
  -- the other run makes the same search, and the next one the same filter
  case alternatives_alone =>
    intro other others h
    obtain ⟨found', kept', hfound', -, heq⟩ := condition_eq_ok_iff.1 h
    obtain rfl := Except.ok.inj (hfound.symm.trans hfound')
    obtain rfl := Value.map.inj heq
    rw [lookup?_or_clauses, lookup?_or_clauses]
  case conditions_alone =>
    intro term fields others h
    obtain ⟨found', kept', -, hkept', heq⟩ := condition_eq_ok_iff.1 h
    obtain rfl := Except.ok.inj (hkept.symm.trans hkept')
    obtain rfl := Value.map.inj heq
    rw [lookup?_and_clauses, lookup?_and_clauses]

/-- **The where clause of a search and a filter.**  Only a search can fail, and only one that is made; without a term or
without search fields none is, and then no path is looked at.  Whatever clause there is has the alternatives of the search
and the conditions of the filter, each of them as if the other were not there, and none of them empty. -/
theorem condition_clauses (typed : e.registry.hasTextTypes = true) (model query : String) (searchFields : List String)
    (filter : String) :
    (∀ w, e.condition model query searchFields filter = .ok w →
        ∃ entries, w = .map entries ∧ Clauses e model query searchFields filter entries) ∧
      ((∃ w, e.condition model query searchFields filter = .ok w) ↔ query = "" ∨ searchFields = [] ∨
        .str model ∈ e.registry.modelNames ∧ e.registry.refused model searchFields = []) ∧
      (query = "" ∨ searchFields = [] → ∃ conditions records,
        e.registry.filterConditions (.str model) filter = .ok (conditions, records) ∧
          e.condition model query searchFields filter =
            .ok (.map (if conditions = [] then [] else [("AND", .list (conditions.map Condition.document))]))) := by
  obtain ⟨kept, hkept⟩ := exists_kept_eq_ok typed model filter
  refine ⟨?_, ?_, ?_⟩
  · intro w h
    obtain ⟨found, kept, hfound, hkept, rfl⟩ := condition_eq_ok_iff.1 h
    exact ⟨_, rfl, clauses_of_lists typed hfound hkept⟩
  · rw [← exists_found_iff typed]
    constructor
    · rintro ⟨w, h⟩
      obtain ⟨found, -, hfound, -⟩ := condition_eq_ok_iff.1 h
      exact ⟨found, hfound⟩
    · rintro ⟨found, hfound⟩
      exact ⟨_, condition_eq_ok_iff.2 ⟨found, kept, hfound, hkept, rfl⟩⟩
  · intro hsilent
    obtain ⟨records, hrun⟩ := kept_eq_ok_iff.1 hkept
    refine ⟨kept, records, hrun, condition_eq_ok_iff.2 ⟨[], kept, found_eq_nil hsilent, hkept, ?_⟩⟩
    cases kept <;> simp [clause, Condition.documents_eq]

/-- A search in two fields beside a filter of which some keys lead somewhere; a filter of which none does; and no term, so
that nobody notices that the field cannot be searched. -/
theorem condition_clauses_orchard :
    Registry.orchard.hasTextTypes = true ∧
      condition ⟨.orchard, {}⟩ "Tree" "oak" ["name", "parent.name"] Registry.orchardFilter =
        .ok (.map [("OR", .list [.map [("name", .map [("contains", .str "oak"), ("mode", .str "insensitive")])],
          .map [("parent", .map [("name", .map [("contains", .str "oak"), ("mode", .str "insensitive")])])]]),
          ("AND", .list [
            .map [("OR", .list [.map [("tags", .map [("has", .str "x")])], .map [("tags", .map [("has", .str "y")])]])],
            .map [("height", .int 12)], .map [("parent", .map [("name", .str "")])]])]) ∧
      condition ⟨.orchard, {}⟩ "Tree" "oak" ["name"] "ghost:1" =
        .ok (.map [("OR", .list [.map [("name", .map [("contains", .str "oak"), ("mode", .str "insensitive")])]])]) ∧
      condition ⟨.orchard, {}⟩ "Tree" "" ["place"] "height:12" =
        .ok (.map [("AND", .list [.map [("height", .int 12)]])]) := by
  have typed : Registry.orchard.hasTextTypes = true := by decide
  have hmodel : .str "Tree" ∈ Registry.orchard.modelNames := List.mem_cons_self
  have hpaths : splitText '.' "name" = ["name"] ∧ splitText '.' "parent.name" = ["parent", "name"] ∧
      splitText '.' "height" = ["height"] := by decide +kernel
  refine ⟨typed, ?_, ?_, ?_⟩
  · obtain ⟨hclauses, hreturns, -⟩ := condition_clauses (e := ⟨.orchard, {}⟩) typed "Tree" "oak" ["name", "parent.name"]
      Registry.orchardFilter
    obtain ⟨w, hw⟩ := hreturns.2 (.inr (.inr ⟨hmodel, by decide +kernel⟩))
    obtain ⟨entries, rfl, h⟩ := hclauses w hw
    have hkeys : Entries.keys entries = ["OR", "AND"] := h.keys.trans (by decide +kernel)
    obtain _ | ⟨⟨_, found⟩, _ | ⟨⟨_, kept⟩, _ | _⟩⟩ := entries <;> simp [Entries.keys] at hkeys
    obtain ⟨rfl, rfl⟩ := hkeys
    obtain ⟨_, -, rfl, hfound⟩ := h.alternatives found rfl
    obtain ⟨_, _, _, -, rfl, -, -, hkept⟩ := h.conditions kept rfl
    obtain rfl := Registry.documents_orchardFilter hkept
    obtain _ | ⟨⟨_, hname, rfl⟩, _ | ⟨⟨_, hparent, rfl⟩, _ | _⟩⟩ := hfound
    rw [hpaths.1] at hname
    rw [hpaths.2.1] at hparent
    obtain rfl := Option.some.inj (Except.ok.inj hname)
    obtain rfl := Option.some.inj (Except.ok.inj hparent)
    exact hw
  · obtain ⟨hclauses, hreturns, -⟩ := condition_clauses (e := ⟨.orchard, {}⟩) typed "Tree" "oak" ["name"] "ghost:1"
    obtain ⟨w, hw⟩ := hreturns.2 (.inr (.inr ⟨hmodel, by decide +kernel⟩))
    obtain ⟨entries, rfl, h⟩ := hclauses w hw
    have hkeys : Entries.keys entries = ["OR"] := h.keys.trans (by decide +kernel)
    obtain _ | ⟨⟨_, found⟩, _ | _⟩ := entries <;> simp [Entries.keys] at hkeys
    obtain rfl := hkeys
    obtain ⟨_, -, rfl, hfound⟩ := h.alternatives found rfl
    obtain _ | ⟨⟨_, hname, rfl⟩, _ | _⟩ := hfound
    rw [hpaths.1] at hname
    obtain rfl := Option.some.inj (Except.ok.inj hname)
    exact hw
  · obtain ⟨hclauses, hreturns, -⟩ := condition_clauses (e := ⟨.orchard, {}⟩) typed "Tree" "" ["place"] "height:12"
    obtain ⟨w, hw⟩ := hreturns.2 (.inl rfl)
    obtain ⟨entries, rfl, h⟩ := hclauses w hw
    have hkeys : Entries.keys entries = ["AND"] := h.keys.trans (by decide +kernel)
    obtain _ | ⟨⟨_, kept⟩, _ | _⟩ := entries <;> simp [Entries.keys] at hkeys
    obtain rfl := hkeys
    obtain ⟨_, _, _, -, rfl, -, -, hkept⟩ := h.conditions kept rfl
    have hgroups : ((FilterPairs.ofText "height:12").filter fun group => Registry.orchard.resolves "Tree" group.1) =
        [("height", ["12"])] := by decide +kernel
    rw [hgroups] at hkept
    obtain _ | ⟨hheight, _ | _⟩ := hkept
    have hroute : Registry.Route .orchard (.str "Tree") ["height"] _ _ := .last rfl
    obtain rfl := hheight.eq_of_one (hpaths.2.2 ▸ hroute) rfl
    exact hw

end Endpoint
end ListQuery
