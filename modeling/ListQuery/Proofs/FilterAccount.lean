import ListQuery.Proofs.FilterGroups
/-!
# The account of a filter

No item of a filter gets lost.  An item is kept as one of the alternatives of its key, or it is dropped with a record that
names it; and what the conditions hold, together with the records, is what became of the items one by one.  Main
statements: `exists_keyed` (the keys), `perm_fates_of_texts` (items and pairs) and `filterConditions_account`.
-/
namespace ListQuery

inductive Fate where
  | kept (key : String) (alternative : Condition)
  | recorded (record : Record)

def Condition.alternatives : Condition → List Condition
  | any alternatives => alternatives
  | c => [c]

theorem Condition.Joins.alternatives_eq {alternatives : List Condition} {c : Condition} (h : Joins alternatives c) :
    c.alternatives = alternatives := by
  cases h with
  | one hc => cases hc <;> rfl
  | several => rfl

def keptFates (keyed : List (String × Condition)) : List Fate :=
  keyed.flatMap fun (key, c) => c.alternatives.map (.kept key)

theorem FilterItem.eq_of_ofText_eq_bare {item text : String} (h : ofText item = .bare text) : text = item := by
  unfold ofText at h
  split at h
  · cases h
  · exact (FilterItem.bare.inj h).symm

namespace Registry

variable {r : Registry} {model : String}

def pairFate (r : Registry) (model : String) (pair : String × String) : Fate :=
  match r.filterCondition (.str model) (splitText '.' pair.1) pair.2 with
  | .ok (some c) => .kept pair.1 c
  | _ => .recorded (droppedPair pair.1 pair.2)

def itemFate (r : Registry) (model item : String) : Fate :=
  match FilterItem.ofText item with
  | .pair key value => r.pairFate model (key, value)
  | .bare _ => .recorded (skippedItem item)

theorem of_itemFate_eq_recorded {item : String} {record : Record} (h : r.itemFate model item = .recorded record) :
    record.level = .debug ∧ record.speaker = .filters := by
  unfold itemFate pairFate at h
  split at h
  · split at h
    · cases h
    · obtain rfl := Fate.recorded.inj h
      exact ⟨rfl, rfl⟩
  · obtain rfl := Fate.recorded.inj h
    exact ⟨rfl, rfl⟩

/-! ## Keys -/

def groupFates (r : Registry) (model : String) (group : String × List String) : List Fate :=
  group.2.map fun value => r.pairFate model (group.1, value)

theorem groupFates_of_gathers {group : String × List String} {c : Condition} (h : r.Gathers model group c) :
    r.groupFates model group = c.alternatives.map (.kept group.1) := by
  obtain ⟨alternatives, hvalues, hjoins⟩ := h
  have hfates : List.Forall₂ (fun value a => r.pairFate model (group.1, value) = .kept group.1 a) group.2 alternatives :=
    hvalues.imp fun value a ha => by rw [pairFate, ha]
  rw [hjoins.alternatives_eq, groupFates, ← List.forall₂_eq_eq_eq, List.forall₂_map_left_iff, List.forall₂_map_right_iff]
  exact hfates

theorem groupFates_of_not_resolves (typed : r.hasTextTypes = true) {group : String × List String}
    (h : r.resolves model group.1 = false) :
    r.groupFates model group = (group.2.map (droppedPair group.1)).map .recorded := by
  rw [groupFates, List.map_map]
  refine List.map_congr_left fun value _ => ?_
  rw [pairFate, filterCondition_of_not_resolves typed h, Function.comp_apply]

/-- **The account of the keys**: the conditions, each with its key, and the records hold what becomes of the pairs. -/
theorem exists_keyed (typed : r.hasTextTypes = true) {groups : FilterPairs} {results : List (Option Condition × List Record)}
    (h : List.Forall₂ (r.Outcome model) groups results) :
    ∃ keyed : List (String × Condition), keyed.map Prod.snd = results.filterMap Prod.fst ∧
      (keyed.map Prod.fst).Sublist (groups.map Prod.fst) ∧ (∀ p ∈ keyed, Condition.Joins p.2.alternatives p.2) ∧
      (keptFates keyed ++ (results.flatMap Prod.snd).map Fate.recorded).Perm (groups.flatMap (r.groupFates model)) := by
  induction h with
  | nil => exact ⟨[], rfl, .slnil, fun _ hp => absurd hp List.not_mem_nil, .nil⟩
  | @cons group result groups results houtcome _ ih =>
    obtain ⟨keyed, hsnd, hfst, hjoins, hperm⟩ := ih
    cases houtcome with
    | @kept c _ hgathers =>
      have hc : Condition.Joins c.alternatives c := by
        obtain ⟨alternatives, -, hc⟩ := hgathers
        rwa [hc.alternatives_eq]
      refine ⟨(group.1, c) :: keyed, ?_, hfst.cons_cons _, List.forall_mem_cons.2 ⟨hc, hjoins⟩, ?_⟩
      · rw [List.map_cons, hsnd]
        rfl
      · rw [List.flatMap_cons, List.flatMap_cons, groupFates_of_gathers hgathers, keptFates, List.flatMap_cons]
        rw [List.append_assoc]
        exact hperm.append_left _
    | dropped hresolves =>
      refine ⟨keyed, ?_, hfst.cons _, hjoins, ?_⟩
      · rw [hsnd]
        rfl
      · rw [List.flatMap_cons, List.flatMap_cons, groupFates_of_not_resolves typed hresolves, List.map_append]
        exact (List.perm_append_comm_assoc _ _ _).trans (hperm.append_left _)

/-! ## Items -/

/-- **Each item is a pair or is skipped**: what becomes of the items is what becomes of the pairs, and the records of the
items that are none. -/
theorem perm_fates_of_texts : ∀ texts : List String, (texts.map (r.itemFate model)).Perm
    ((skippedItems (texts.map FilterItem.ofText)).map Fate.recorded ++
      ((texts.map FilterItem.ofText).filterMap FilterItem.pair?).map (r.pairFate model))
  | [] => .nil
  | text :: texts => by
    have ih := perm_fates_of_texts texts
    rw [skippedItems] at ih ⊢
    rw [List.map_cons, List.map_cons]
    cases h : FilterItem.ofText text with
    | pair key value =>
      have hfate : r.itemFate model text = r.pairFate model (key, value) := by rw [itemFate, h]
      rw [hfate]
      exact (ih.cons _).trans List.perm_middle.symm
    | bare skipped =>
      have hfate : r.itemFate model text = .recorded (skippedItem skipped) := by
        rw [itemFate, h, FilterItem.eq_of_ofText_eq_bare h]
      rw [hfate]
      exact ih.cons _

theorem perm_fates_of_pairs (filter : String) :
    ((FilterPairs.ofText filter).flatMap (r.groupFates model)).Perm ((FilterPairs.given filter).map (r.pairFate model)) := by
  have hkey : ∀ (k l value : String), (k == l) = true → r.pairFate model (k, value) = r.pairFate model (l, value) := by
    intro k l value h
    rw [eq_of_beq h]
  rw [FilterPairs.ofText, FilterPairs.ofItems_eq_collect]
  exact Entries.perm_collect _ (fun key value => r.pairFate model (key, value)) hkey (FilterPairs.given filter)

/-- **No item of a filter gets lost.**  What the conditions have as alternatives and what is recorded is, put together, what
becomes of the items one by one: each of them is one alternative of its key or one record.  The alternatives of a key are
written one by one, as the only document of the key or as the documents that it offers. -/
theorem filterConditions_account (typed : r.hasTextTypes = true) (model : String) {filter : String} (hne : filter ≠ "") :
    ∃ keyed records, r.filterConditions (.str model) filter = .ok (keyed.map Prod.snd, records) ∧
      (keyed.map Prod.fst).Nodup ∧ (∀ p ∈ keyed, Condition.Joins p.2.alternatives p.2) ∧
      Condition.documents (keyed.map Prod.snd) = keyed.map (fun p => p.2.document) ∧
      (∀ p ∈ keyed, Condition.Offers (p.2.alternatives.map Condition.document) p.2.document) ∧
      (keptFates keyed ++ records.map Fate.recorded).Perm ((splitText ',' filter).map (r.itemFate model)) ∧
      (∀ record ∈ records, record.level = .debug ∧ record.speaker = .filters) ∧
      (splitText ',' filter).length = (keyed.flatMap fun p => p.2.alternatives).length + records.length := by
  obtain ⟨results, houtcomes, hrun⟩ := filterConditions_eq typed model filter
  obtain ⟨keyed, hsnd, hfst, hjoins, hkept⟩ := exists_keyed typed houtcomes
  have hitems : filterItems filter = (splitText ',' filter).map FilterItem.ofText := by rw [filterItems, if_neg hne]
  have haccount : (keptFates keyed ++ (skippedItems (filterItems filter) ++ results.flatMap Prod.snd).map Fate.recorded).Perm
      ((splitText ',' filter).map (r.itemFate model)) := by
    have htexts := @perm_fates_of_texts r model (splitText ',' filter)
    rw [← hitems] at htexts
    have hpairs := hkept.trans (perm_fates_of_pairs filter)
    rw [List.map_append]
    -- the skipped items are recorded before the pairs are looked at, wherever they stand
    refine (List.perm_append_comm_assoc _ _ _).trans ?_
    exact (hpairs.append_left _).trans htexts.symm
  have hdocuments : Condition.documents (keyed.map Prod.snd) = keyed.map fun p => p.2.document := by
    rw [Condition.documents_eq, List.map_map]
    rfl
  refine ⟨keyed, _, by rw [hrun, hsnd], hfst.nodup (FilterPairs.nodup_keys_ofText filter), hjoins, hdocuments,
    fun p hp => (hjoins p hp).offers, haccount, ?_, ?_⟩
  · intro record hrecord
    have hmem : Fate.recorded record ∈ (splitText ',' filter).map (r.itemFate model) :=
      haccount.subset (List.mem_append_right _ (List.mem_map_of_mem hrecord))
    obtain ⟨item, -, hitem⟩ := List.mem_map.1 hmem
    exact of_itemFate_eq_recorded hitem
  · have hlength := haccount.length_eq
    have hkept : (keptFates keyed).length = (keyed.flatMap fun p => p.2.alternatives).length := by
      simp only [keptFates, List.length_flatMap, List.length_map]
    rw [List.length_append, hkept, List.length_map, List.length_map] at hlength
    exact hlength.symm

/-- Four items are kept, two of them under one key, and four are dropped for one reason or the other. -/
theorem filterConditions_account_orchard :
    orchard.hasTextTypes = true ∧ orchardFilter ≠ "" ∧ ∃ (keyed : List (String × Condition)) (records : List Record),
      orchard.filterConditions (.str "Tree") orchardFilter = .ok (keyed.map Prod.snd, records) ∧
        (keyed.flatMap fun p => p.2.alternatives).length = 4 ∧
        records.map Record.message =
          ["Skipping filter item without a value: 'height'", "Skipping filter item without a value: ''",
            "Dropping unresolved filter ghost:1", "Dropping unresolved filter parent:a"] := by
  have typed : orchard.hasTextTypes = true := by decide
  have hne : orchardFilter ≠ "" := by decide
  refine ⟨typed, hne, ?_⟩
  obtain ⟨keyed, records, hrun, -, -, -, -, -, -, hcount⟩ := filterConditions_account typed "Tree" hne
  have hitems : (splitText ',' orchardFilter).length = 8 := by decide +kernel
  have hrun' : (orchard.filterConditions (.str "Tree") orchardFilter).toOption.map (fun r => r.2.map Record.message) =
      some ["Skipping filter item without a value: 'height'", "Skipping filter item without a value: ''",
        "Dropping unresolved filter ghost:1", "Dropping unresolved filter parent:a"] := by decide +kernel
  rw [hrun] at hrun'
  have hmessages : records.map Record.message = _ := Option.some.inj hrun'
  have hrecords : records.length = 4 := by rw [← records.length_map Record.message, hmessages]; rfl
  exact ⟨keyed, records, hrun, by omega, hmessages⟩

end Registry
end ListQuery
