import ListQuery.Proofs.FilterDocuments
/-!
# Search and filter in one context

A search and a filter that are given the same path put what they ask of its last field into the same place: the entries
around it depend on the path alone.  Main statement: `searchCondition_context`.
-/
namespace ListQuery

/-- The document that looks for a term in a field; the mode is left out if it counts as not given. -/
def Field.searched (f : Field) (mode : Value) (term : String) : Value :=
  .only f.label (.map (("contains", .str term) :: if mode.isTruthy then [("mode", mode)] else []))

theorem Field.document_contains (f : Field) (mode : Value) (term : String) :
    (Condition.contains f.label term (modeOf mode)).document = f.searched mode term := by
  unfold modeOf Field.searched
  split <;> rfl

theorem Field.isComparable_of_isSearchable {f : Field} (h : f.isSearchable = true) : f.isComparable = true := by
  unfold isSearchable at h
  unfold isComparable isObject
  cases hk : f.kind with
  | scalar | enum => rfl
  | object =>
    rw [hk] at h
    exact absurd h Bool.false_ne_true

namespace Registry

variable {r : Registry}

/-- **One context for search and filter.**  A path gives a search condition exactly if it ends on a field that can be
searched.  The path then gives a filter condition as well, and both stand inside the same entries: those of the fields that
the path leads through, whatever the term, the mode and the raw value are. -/
theorem searchCondition_context (typed : r.hasTextTypes = true) (schema : String) (path : List String) :
    ∃ searchable, r.isSearchable (.str schema) path = .ok searchable ∧
      (∀ mode term, ∃ condition, r.searchCondition (modeOf mode) (.str schema) path term = .ok condition ∧
        (condition.isSome = true ↔ searchable = true)) ∧
      (searchable = true → ∃ via f, Route r (.str schema) path via f ∧ path = via.map Field.label ++ [f.label] ∧
        ∀ mode term raw, ∃ search filter v,
          r.searchCondition (modeOf mode) (.str schema) path term = .ok (some search) ∧
          r.filterCondition (.str schema) path raw = .ok (some filter) ∧ f.valueOf raw = .ok v ∧
          search.document = via.foldr Field.wrapped (f.searched mode term) ∧
          filter.document = via.foldr Field.wrapped (f.compared v)) := by
  obtain ⟨found, hfound⟩ := exists_fieldAt_eq_ok typed path schema
  refine ⟨_, isSearchable_of_fieldAt hfound, ?_⟩
  cases found with
  | none =>
    have hnone : ∀ mode term, r.searchCondition (modeOf mode) (.str schema) path term = .ok none :=
      fun mode term => searchCondition_eq_none (modeOf mode) term hfound
    exact ⟨fun mode term => ⟨none, hnone mode term, by simp⟩, fun h => absurd h Bool.false_ne_true⟩
  | some f =>
    obtain ⟨via, hvia⟩ := exists_route path hfound
    have hsearch := fun mode term => searchCondition_of_route hvia (modeOf mode) term
    refine ⟨fun mode term => ⟨_, hsearch mode term, by cases hf : f.isSearchable <;> simp [hf]⟩, ?_⟩
    intro (hf : f.isSearchable = true)
    refine ⟨via, f, hvia, hvia.labels.symm, fun mode term raw => ?_⟩
    obtain ⟨v, hv⟩ := f.exists_valueOf_eq_ok (hvia.text_type typed) raw
    have hfilter := filterCondition_of_route hvia raw
    rw [Field.isComparable_of_isSearchable hf, if_pos rfl, hv, ok_bind] at hfilter
    have hs := hsearch mode term
    rw [if_pos hf] at hs
    refine ⟨_, _, v, hs, hfilter, hv, ?_, ?_⟩
    · rw [Condition.document_nest, Field.document_contains]
    · rw [Condition.document_nest, Field.document_compare]

/-- Six names that pass every sort of object field on a way that comes back to the schema it began in. -/
theorem searchCondition_context_orchard :
    orchard.hasTextTypes = true ∧
      ∃ search filter, orchard.searchCondition (modeOf (.str "insensitive")) (.str "Tree")
          ["children", "views", "tree", "parent", "place", "label"] "hill" = .ok (some search) ∧
        orchard.filterCondition (.str "Tree") ["children", "views", "tree", "parent", "place", "label"] "12" =
          .ok (some filter) ∧
        search.document = .only "children" (.only "some" (.only "views" (.only "some" (.only "is" (.only "tree"
          (.only "parent" (.only "place" (.only "is" (.only "label"
            (.map [("contains", .str "hill"), ("mode", .str "insensitive")])))))))))) ∧
        filter.document = .only "children" (.only "some" (.only "views" (.only "some" (.only "is" (.only "tree"
          (.only "parent" (.only "place" (.only "is" (.only "label" (.str "12")))))))))) := by
  have typed : orchard.hasTextTypes = true := by decide
  obtain ⟨searchable, hsearchable, -, hcontext⟩ :=
    searchCondition_context typed "Tree" ["children", "views", "tree", "parent", "place", "label"]
  have hroute : Route orchard (.str "Tree") ["children", "views", "tree", "parent", "place", "label"] _ _ :=
    .step rfl rfl (.step rfl rfl (.step rfl rfl (.step rfl rfl (.step rfl rfl (.last rfl)))))
  obtain rfl := Except.ok.inj (hsearchable.symm.trans (isSearchable_of_fieldAt hroute.fieldAt))
  obtain ⟨via, f, hvia, -, hboth⟩ := hcontext rfl
  obtain ⟨rfl, rfl⟩ := hroute.unique hvia
  obtain ⟨search, filter, v, hs, hf, hv, hsd, hfd⟩ := hboth (.str "insensitive") "hill" "12"
  obtain rfl := Except.ok.inj hv
  exact ⟨typed, search, filter, hs, hf, hsd, hfd⟩

end Registry
end ListQuery
