import ListQuery.Proofs.CollectedRows
import ListQuery.Proofs.FilterDocuments
/-!
# The conditions of a whole filter

Whether a pair is kept depends on where its key leads, and not on its value; so the values of a key are kept together or
dropped together, and nobody finds some of them missing among the alternatives.  Main statements: `FilterPairs.ofText_eq`
(what the pairs of a filter are), `keyCondition_outcome` (one key) and `filterConditions_groups` (all keys).
-/
namespace ListQuery

/-! ## Pairs -/

def FilterItem.pair? : FilterItem → Option (String × String)
  | pair key value => some (key, value)
  | bare _ => none

namespace FilterPairs

def given (filter : String) : List (String × String) := (filterItems filter).filterMap FilterItem.pair?

theorem ofItems_eq_collect (items : List FilterItem) :
    ofItems items = Entries.collect (fun k l => k == l) (items.filterMap FilterItem.pair?) := by
  rw [Entries.collect, List.foldl_filterMap, ofItems]
  congr 1
  funext pairs item
  cases item <;> rfl

theorem classifies_beq (keys : List String) : Entries.Classifies (fun k l => k == l) keys where
  refl k _ := beq_self_eq_true k
  symm _ _ _ _ h := beq_iff_eq.2 (eq_of_beq h).symm
  trans _ _ _ _ _ _ hkl hlm := beq_iff_eq.2 ((eq_of_beq hkl).trans (eq_of_beq hlm))

/-- **The pairs of a filter**: each key once, in the order in which the keys were first given, with all of its values in
their order. -/
theorem ofText_eq (filter : String) :
    ofText filter = ((given filter).map Prod.fst).eraseDups.map fun key =>
      (key, ((given filter).filter fun pair => key == pair.1).map Prod.snd) := by
  have hcomm : (fun l k : String => k == l) = fun l k => l == k := funext fun l => funext fun k => Bool.beq_comm
  rw [ofText, ofItems_eq_collect, Entries.collect_eq (classifies_beq _), Entries.keys_collect, hcomm]
  rfl

theorem ne_nil_of_mem_ofText {filter : String} {group : String × List String} (h : group ∈ ofText filter) :
    group.2 ≠ [] := by
  rw [ofText, ofItems_eq_collect] at h
  exact Entries.ne_nil_of_mem_collect group h

theorem nodup_keys_ofText (filter : String) : ((ofText filter).map Prod.fst).Nodup := by
  rw [ofText, ofItems_eq_collect]
  exact (Entries.pairwise_keys_collect (given filter)).imp ne_of_beq_false

end FilterPairs

/-! ## Alternatives -/

namespace Condition

/-- The comparison of one field, inside the layers of a path. -/
inductive IsComparison : Condition → Prop
  | equals (field : String) (value : Value) : IsComparison (.equals field value)
  | has (field : String) (value : Value) : IsComparison (.has field value)
  | within {inner : Condition} (layer : Layer) : IsComparison inner → IsComparison (.within layer inner)

theorem isComparison_nest (f : Field) (v : Value) : ∀ layers : List Layer, (nest layers (compare f v)).IsComparison
  | [] => by
    rw [nest, List.foldr_nil, compare]
    split
    · exact .has _ _
    · exact .equals _ _
  | layer :: layers => .within layer (isComparison_nest f v layers)

/-- A condition that stands for several comparisons: that comparison itself if there is only one, and otherwise the
condition that has all of them as alternatives. -/
inductive Joins : List Condition → Condition → Prop
  | one {c : Condition} : c.IsComparison → Joins [c] c
  | several {alternatives : List Condition} : 2 ≤ alternatives.length → (∀ a ∈ alternatives, a.IsComparison) →
      Joins alternatives (.any alternatives)

/-- The document that offers some documents to choose from: that document itself if there is only one, and otherwise all of
them in order. -/
inductive Offers : List Value → Value → Prop
  | one (document : Value) : Offers [document] document
  | several {documents : List Value} : 2 ≤ documents.length → Offers documents (.map [("OR", .list documents)])

theorem offers_singleton_iff {document offered : Value} : Offers [document] offered ↔ offered = document := by
  constructor
  · rintro (_ | hlength)
    · rfl
    · exact absurd hlength (Nat.lt_irrefl 1)
  · rintro rfl
    exact .one _

theorem Joins.offers {alternatives : List Condition} {c : Condition} (h : Joins alternatives c) :
    Offers (alternatives.map document) c.document := by
  cases h with
  | one => exact .one _
  | several hlength =>
    rw [document, documents_eq]
    exact .several (by rwa [List.length_map])

theorem exists_joins : ∀ {alternatives : List Condition}, alternatives ≠ [] → (∀ a ∈ alternatives, a.IsComparison) →
    ∃ c, joinAlternatives alternatives.length alternatives = some c ∧ Joins alternatives c
  | [], hne, _ => absurd rfl hne
  | [c], _, h => ⟨c, rfl, .one (h c List.mem_cons_self)⟩
  | c :: d :: rest, _, h => ⟨.any (c :: d :: rest), rfl, .several (by simp) h⟩

end Condition

/-! ## One key -/

namespace Registry

variable {r : Registry}

def resolves (r : Registry) (model key : String) : Bool :=
  match r.fieldAt (.str model) (splitText '.' key) with
  | .ok (some f) => f.isComparable
  | _ => false

/-- **Whether a pair is kept depends on its key alone.** -/
theorem exists_filterCondition_of_key (typed : r.hasTextTypes = true) (model key value : String) :
    ∃ c, r.filterCondition (.str model) (splitText '.' key) value = .ok c ∧
      (c.isSome = true ↔ r.resolves model key = true) := by
  obtain ⟨found, c, hfound, hc, hsome⟩ := exists_filterCondition_eq_ok typed model (splitText '.' key) value
  refine ⟨c, hc, ?_⟩
  rw [hsome, resolves, hfound]
  cases found <;> simp

theorem isComparison_of_filterCondition (typed : r.hasTextTypes = true) {model raw : String} {path : List String}
    {c : Condition} (h : r.filterCondition (.str model) path raw = .ok (some c)) : c.IsComparison := by
  obtain ⟨via, f, hvia⟩ := exists_route_of_filterCondition typed h
  obtain ⟨-, v, -, rfl⟩ := hvia.of_filterCondition h
  exact Condition.isComparison_nest f v _

theorem exists_alternatives (typed : r.hasTextTypes = true) {model key : String} (h : r.resolves model key = true) :
    ∀ values : List String, ∃ alternatives : List Condition,
      List.Forall₂ (fun value a => r.filterCondition (.str model) (splitText '.' key) value = .ok (some a))
        values alternatives ∧
        ∀ a ∈ alternatives, a.IsComparison
  | [] => ⟨[], .nil, fun _ ha => absurd ha List.not_mem_nil⟩
  | value :: values => by
    obtain ⟨c, hc, hsome⟩ := exists_filterCondition_of_key typed model key value
    obtain ⟨a, rfl⟩ := Option.isSome_iff_exists.1 (hsome.2 h)
    obtain ⟨alternatives, hrest, hcomparison⟩ := exists_alternatives typed h values
    exact ⟨a :: alternatives, .cons hc hrest,
      List.forall_mem_cons.2 ⟨isComparison_of_filterCondition typed hc, hcomparison⟩⟩

theorem filterCondition_of_not_resolves (typed : r.hasTextTypes = true) {model key : String}
    (h : r.resolves model key = false) (value : String) :
    r.filterCondition (.str model) (splitText '.' key) value = .ok none := by
  obtain ⟨c, hc, hsome⟩ := exists_filterCondition_of_key typed model key value
  rw [h] at hsome
  cases c with
  | none => exact hc
  | some c => exact absurd (hsome.1 rfl) Bool.false_ne_true

/-- A condition that holds what the values of a key ask for, one alternative for each value. -/
def Gathers (r : Registry) (model : String) (group : String × List String) (c : Condition) : Prop :=
  ∃ alternatives, List.Forall₂ (fun value a =>
    r.filterCondition (.str model) (splitText '.' group.1) value = .ok (some a)) group.2 alternatives ∧
      Condition.Joins alternatives c

/-- The document of what the values of a key ask for: each of them is compared with the field at the end of one route. -/
def Writes (r : Registry) (model : String) (group : String × List String) (document : Value) : Prop :=
  ∃ via f documents, Route r (.str model) (splitText '.' group.1) via f ∧ f.isComparable = true ∧
    List.Forall₂ (fun raw d => ∃ v, f.valueOf raw = .ok v ∧ d = via.foldr Field.wrapped (f.compared v)) group.2 documents ∧
      Condition.Offers documents document

theorem exists_route_of_resolves {model key : String} (h : r.resolves model key = true) :
    ∃ via f, Route r (.str model) (splitText '.' key) via f ∧ f.isComparable = true := by
  unfold resolves at h
  split at h
  · rename_i f hfound
    obtain ⟨via, hvia⟩ := exists_route _ hfound
    exact ⟨via, f, hvia, h⟩
  · cases h

theorem writes_of_gathers {model : String} {group : String × List String} {c : Condition}
    (h : r.resolves model group.1 = true) (hgathers : r.Gathers model group c) : r.Writes model group c.document := by
  obtain ⟨via, f, hvia, hf⟩ := exists_route_of_resolves h
  obtain ⟨alternatives, hvalues, hjoins⟩ := hgathers
  refine ⟨via, f, _, hvia, hf, ?_, hjoins.offers⟩
  rw [List.forall₂_map_right_iff]
  exact hvalues.imp fun raw a ha => (hvia.document_of_filterCondition ha).2

theorem Writes.eq_of_one {model key raw : String} {document v : Value} {via : List Field} {f : Field}
    (h : r.Writes model (key, [raw]) document) (hvia : Route r (.str model) (splitText '.' key) via f)
    (hv : f.valueOf raw = .ok v) : document = via.foldr Field.wrapped (f.compared v) := by
  obtain ⟨_, _, _, hvia', -, hvalues, hoffers⟩ := h
  obtain ⟨rfl, rfl⟩ := hvia.unique hvia'
  obtain _ | ⟨⟨w, hw, rfl⟩, _ | _⟩ := hvalues
  obtain rfl := Except.ok.inj (hv.symm.trans hw)
  exact Condition.offers_singleton_iff.1 hoffers

inductive Outcome (r : Registry) (model : String) (group : String × List String) : Option Condition × List Record → Prop
  | kept {c : Condition} : r.resolves model group.1 = true → r.Gathers model group c → Outcome r model group (some c, [])
  | dropped : r.resolves model group.1 = false → Outcome r model group (none, group.2.map (droppedPair group.1))

theorem keyCondition_of_conditions {model : Value} {key : String} {values : List String}
    {conditions : List (Option Condition)}
    (h : (values.mapM fun value => r.filterCondition model (splitText '.' key) value) = .ok conditions) :
    r.keyCondition model key values = .ok (joinAlternatives values.length (conditions.filterMap id),
      (values.zip conditions).filterMap fun p => if p.2.isNone then some (droppedPair key p.1) else none) := by
  rw [keyCondition, h]
  rfl

theorem keyCondition_of_resolves (typed : r.hasTextTypes = true) {model key : String} {values : List String}
    (h : r.resolves model key = true) (hne : values ≠ []) :
    ∃ c, r.keyCondition (.str model) key values = .ok (some c, []) ∧ r.Gathers model (key, values) c := by
  obtain ⟨alternatives, halternatives, hcomparison⟩ := exists_alternatives typed h values
  have hrun : (values.mapM fun value => r.filterCondition (.str model) (splitText '.' key) value) =
      .ok (alternatives.map some) := by
    rw [mapM_eq_ok_iff, List.forall₂_map_right_iff]
    exact halternatives
  have hall : (alternatives.map some).filterMap id = alternatives := by
    rw [List.filterMap_map, Function.id_comp, List.filterMap_some]
  have hnone : ((values.zip (alternatives.map some)).filterMap fun p =>
      if p.2.isNone then some (droppedPair key p.1) else none) = [] := by
    rw [List.filterMap_eq_nil_iff]
    intro p hp
    obtain ⟨a, -, ha⟩ := List.mem_map.1 (List.of_mem_zip hp).2
    rw [← ha]
    rfl
  have hne : alternatives ≠ [] := by
    rintro rfl
    cases halternatives
    exact hne rfl
  obtain ⟨c, hc, hjoins⟩ := Condition.exists_joins hne hcomparison
  refine ⟨c, ?_, alternatives, halternatives, hjoins⟩
  rw [keyCondition_of_conditions hrun, hnone, hall, halternatives.length_eq, hc]

theorem keyCondition_of_not_resolves (typed : r.hasTextTypes = true) {model key : String} (values : List String)
    (h : r.resolves model key = false) :
    r.keyCondition (.str model) key values = .ok (none, values.map (droppedPair key)) := by
  have hrun : (values.mapM fun value => r.filterCondition (.str model) (splitText '.' key) value) =
      .ok (values.map fun _ => none) :=
    mapM_eq_ok_map fun value _ => filterCondition_of_not_resolves typed h value
  have hnone : (values.map fun _ => (none : Option Condition)).filterMap id = [] := by
    rw [List.filterMap_map, Function.id_comp, List.filterMap_none]
  have hall : ((values.zip (values.map fun _ => (none : Option Condition))).filterMap fun p =>
      if p.2.isNone then some (droppedPair key p.1) else none) = values.map (droppedPair key) := by
    rw [← List.map_prod_left_eq_zip, List.filterMap_map, ← List.filterMap_eq_map]
    rfl
  -- one value or several, nothing is left to join
  have hjoin : joinAlternatives values.length [] = none := by
    unfold joinAlternatives
    split <;> rfl
  rw [keyCondition_of_conditions hrun, hall, hnone, hjoin]

theorem keyCondition_outcome (typed : r.hasTextTypes = true) (model : String) {group : String × List String}
    (hne : group.2 ≠ []) :
    ∃ result, r.keyCondition (.str model) group.1 group.2 = .ok result ∧ r.Outcome model group result := by
  cases h : r.resolves model group.1 with
  | true =>
    obtain ⟨c, hc, hgathers⟩ := keyCondition_of_resolves typed h hne
    exact ⟨_, hc, .kept h hgathers⟩
  | false => exact ⟨_, keyCondition_of_not_resolves typed group.2 h, .dropped h⟩

/-! ## All keys -/

theorem filterConditions_eq (typed : r.hasTextTypes = true) (model filter : String) :
    ∃ results, List.Forall₂ (r.Outcome model) (FilterPairs.ofText filter) results ∧
      r.filterConditions (.str model) filter =
        .ok (results.filterMap Prod.fst, skippedItems (filterItems filter) ++ results.flatMap Prod.snd) := by
  have hkeys : ∀ group ∈ FilterPairs.ofText filter, ∃ result,
      r.keyCondition (.str model) group.1 group.2 = .ok result ∧ r.Outcome model group result :=
    fun _ hgroup => keyCondition_outcome typed model (FilterPairs.ne_nil_of_mem_ofText hgroup)
  obtain ⟨results, hresults, houtcomes⟩ := exists_mapM_eq_ok hkeys
  refine ⟨results, houtcomes, ?_⟩
  rw [filterConditions, ← FilterPairs.ofText, hresults, ok_bind, pure_eq_ok]

theorem gathers_of_outcomes {model : String} {groups : FilterPairs} {results : List (Option Condition × List Record)}
    (h : List.Forall₂ (r.Outcome model) groups results) :
    List.Forall₂ (r.Gathers model) (groups.filter fun group => r.resolves model group.1) (results.filterMap Prod.fst) := by
  induction h with
  | nil => exact .nil
  | cons houtcome _ ih =>
    cases houtcome with
    | kept hresolves hgathers =>
      rw [List.filter_cons, if_pos hresolves]
      exact .cons hgathers ih
    | dropped hresolves =>
      rw [List.filter_cons, hresolves, if_neg Bool.false_ne_true]
      exact ih

theorem writes_of_outcomes {model : String} {groups : FilterPairs} {results : List (Option Condition × List Record)}
    (h : List.Forall₂ (r.Outcome model) groups results) :
    List.Forall₂ (r.Writes model) (groups.filter fun group => r.resolves model group.1)
      (Condition.documents (results.filterMap Prod.fst)) := by
  have hresolves : ∀ group ∈ groups.filter fun group => r.resolves model group.1, r.resolves model group.1 = true :=
    fun group hgroup => (List.mem_filter.1 hgroup).2
  rw [Condition.documents_eq, List.forall₂_map_right_iff]
  exact ((List.forall₂_and_left _ _).2 ⟨hresolves, gathers_of_outcomes h⟩).imp fun _ _ h => writes_of_gathers h.1 h.2

/-- **The conditions of a filter, whether the model is known or not.**  A filter never fails.  It gives one condition for
each key that leads to a scalar or an enum, in the order in which the keys were first given: that of its one value, or any
of those of its values, in their order; and one document for each condition. -/
theorem filterConditions_groups (typed : r.hasTextTypes = true) (model filter : String) :
    ∃ conditions records, r.filterConditions (.str model) filter = .ok (conditions, records) ∧
      List.Forall₂ (r.Gathers model) ((FilterPairs.ofText filter).filter fun group => r.resolves model group.1) conditions ∧
      List.Forall₂ (r.Writes model) ((FilterPairs.ofText filter).filter fun group => r.resolves model group.1)
        (Condition.documents conditions) ∧
      (∀ key value, ∃ c, r.filterCondition (.str model) (splitText '.' key) value = .ok c ∧
        (c.isSome = true ↔ r.resolves model key = true)) ∧
      FilterPairs.ofText filter = ((FilterPairs.given filter).map Prod.fst).eraseDups.map fun key =>
        (key, ((FilterPairs.given filter).filter fun pair => key == pair.1).map Prod.snd) := by
  obtain ⟨results, houtcomes, hrun⟩ := filterConditions_eq typed model filter
  exact ⟨_, _, hrun, gathers_of_outcomes houtcomes, writes_of_outcomes houtcomes, exists_filterCondition_of_key typed model,
    FilterPairs.ofText_eq filter⟩

/-- Pairs of five keys, of which one is given twice and two lead nowhere, an item without a colon and an empty one. -/
def orchardFilter : String := "tags:x,height:12,ghost:1,tags:y:z,height,,parent:a,parent.name:"

theorem kept_orchardFilter : ((FilterPairs.ofText orchardFilter).filter fun group => orchard.resolves "Tree" group.1) =
    [("tags", ["x", "y"]), ("height", ["12"]), ("parent.name", [""])] := by
  decide +kernel

theorem documents_orchardFilter {documents : List Value}
    (h : List.Forall₂ (orchard.Writes "Tree")
      ((FilterPairs.ofText orchardFilter).filter fun group => orchard.resolves "Tree" group.1) documents) :
    documents =
      [.map [("OR", .list [.map [("tags", .map [("has", .str "x")])], .map [("tags", .map [("has", .str "y")])]])],
        .map [("height", .int 12)], .map [("parent", .map [("name", .str "")])]] := by
  rw [kept_orchardFilter] at h
  have htags : Route orchard (.str "Tree") ["tags"] _ _ := .last rfl
  have hheight : Route orchard (.str "Tree") ["height"] _ _ := .last rfl
  have hname : Route orchard (.str "Tree") ["parent", "name"] _ _ := .step rfl rfl (.last rfl)
  have hpaths : splitText '.' "tags" = ["tags"] ∧ splitText '.' "height" = ["height"] ∧
      splitText '.' "parent.name" = ["parent", "name"] := by decide +kernel
  obtain _ | ⟨⟨_, _, _, htags', -, hboth, hchoice⟩, _ | ⟨hone, _ | ⟨hlast, _ | _⟩⟩⟩ := h
  obtain ⟨rfl, rfl⟩ := htags.unique (hpaths.1 ▸ htags')
  obtain _ | ⟨⟨_, hx, rfl⟩, _ | ⟨⟨_, hy, rfl⟩, _ | _⟩⟩ := hboth
  obtain rfl := Except.ok.inj hx
  obtain rfl := Except.ok.inj hy
  obtain rfl := hone.eq_of_one (hpaths.2.1 ▸ hheight) rfl
  obtain rfl := hlast.eq_of_one (hpaths.2.2 ▸ hname) rfl
  cases hchoice
  rfl

/-- Two of the conditions are written as a comparison, and one as the choice between two of them. -/
theorem filterConditions_groups_orchard :
    orchard.hasTextTypes = true ∧
      ∃ a b c d records, orchard.filterConditions (.str "Tree") orchardFilter = .ok ([.any [a, b], c, d], records) ∧
        orchard.filterCondition (.str "Tree") ["tags"] "x" = .ok (some a) ∧
        orchard.filterCondition (.str "Tree") ["tags"] "y" = .ok (some b) ∧
        orchard.filterCondition (.str "Tree") ["height"] "12" = .ok (some c) ∧
        orchard.filterCondition (.str "Tree") ["parent", "name"] "" = .ok (some d) ∧
        Condition.documents [.any [a, b], c, d] =
          [.map [("OR", .list [.map [("tags", .map [("has", .str "x")])], .map [("tags", .map [("has", .str "y")])]])],
            .map [("height", .int 12)], .map [("parent", .map [("name", .str "")])]] := by
  have typed : orchard.hasTextTypes = true := by decide
  refine ⟨typed, ?_⟩
  obtain ⟨conditions, records, hrun, hgathers, hwrites, -⟩ := filterConditions_groups typed "Tree" orchardFilter
  have hdocuments := documents_orchardFilter hwrites
  rw [kept_orchardFilter] at hgathers
  obtain _ | ⟨⟨_, htags, hany⟩, _ | ⟨⟨_, hheight, hone⟩, _ | ⟨⟨_, hname, hlast⟩, _ | _⟩⟩⟩ := hgathers
  obtain _ | ⟨ha, _ | ⟨hb, _ | _⟩⟩ := htags
  obtain _ | ⟨hc, _ | _⟩ := hheight
  obtain _ | ⟨hd, _ | _⟩ := hname
  cases hany
  cases hone with
  | several h => exact absurd h (Nat.lt_irrefl 1)
  | one => cases hlast with
    | several h => exact absurd h (Nat.lt_irrefl 1)
    | one => exact ⟨_, _, _, _, records, hrun, ha, hb, hc, hd, hdocuments⟩

end Registry
end ListQuery
