import ListQuery.Proofs.Routes
/-!
# The document of a filter condition

What the executor is given for one filter pair: around the comparison of the last field stands one entry for each field
that the path leads through.  Main statement: `filterCondition_document`, which says when there is a condition at all, and
writes its document out.
-/
namespace ListQuery

/-! ## One entry for each field -/

namespace Field

/-- Whether an object field joins a relation: it has the name of one, and the name is not empty. -/
def isJoined (g : Field) : Bool := g.relation?.any Value.isTruthy

/-- A document as it is reached through an object field. -/
def wrapped (g : Field) (inner : Value) : Value :=
  match g.isJoined, g.isList with
  | true, true => .only g.label (.only "some" inner)
  | true, false => .only g.label inner
  | false, true => .only g.label (.only "some" (.only "is" inner))
  | false, false => .only g.label (.only "is" inner)

def compared (f : Field) (v : Value) : Value :=
  if f.isList then .only f.label (.only "has" v) else .only f.label v

theorem around_layer (g : Field) (inner : Value) : g.layer.around inner = g.wrapped inner := by
  have hl : g.layer = ⟨g.label, g.isList, !g.isJoined⟩ := rfl
  rw [hl, wrapped]
  cases g.isJoined <;> cases g.isList <;> rfl

theorem document_compare (f : Field) (v : Value) : (Condition.compare f v).document = f.compared v := by
  unfold Condition.compare compared
  split <;> rfl

theorem exists_valueOf_eq_ok {f : Field} (typed : ∃ s, f.type = .str s) (raw : String) : ∃ v, f.valueOf raw = .ok v := by
  obtain ⟨s, hs⟩ := typed
  unfold valueOf
  cases hk : f.kind with
  | scalar t =>
    rw [type, hk] at hs
    obtain rfl : t = .str s := hs
    exact ⟨_, rfl⟩
  | enum => exact ⟨_, rfl⟩
  | object => exact ⟨_, rfl⟩

end Field

theorem Condition.document_nest (c : Condition) : ∀ via : List Field,
    (Condition.nest (via.map Field.layer) c).document = via.foldr Field.wrapped c.document
  | [] => rfl
  | g :: via => by
    rw [List.foldr_cons, ← document_nest c via, ← Field.around_layer]
    rfl

/-! ## Whole paths -/

namespace Registry

variable {r : Registry}

theorem exists_filterCondition_eq_ok (typed : r.hasTextTypes = true) (schema : String) (path : List String) (raw : String) :
    ∃ found condition, r.fieldAt (.str schema) path = .ok found ∧ r.filterCondition (.str schema) path raw = .ok condition ∧
      (condition.isSome = true ↔ ∃ f, found = some f ∧ f.isComparable = true) := by
  obtain ⟨found, hfound⟩ := exists_fieldAt_eq_ok typed path schema
  cases found with
  | none => exact ⟨none, none, hfound, filterCondition_eq_none raw hfound, by simp⟩
  | some f =>
    obtain ⟨via, hvia⟩ := exists_route path hfound
    obtain ⟨v, hv⟩ := f.exists_valueOf_eq_ok (hvia.text_type typed) raw
    have hc := filterCondition_of_route hvia raw
    rw [hv, ok_bind] at hc
    cases hf : f.isComparable with
    | false => exact ⟨some f, none, hfound, by simpa [hf] using hc, by simp [hf]⟩
    | true => exact ⟨some f, _, hfound, by simpa [hf] using hc, by simp [hf]⟩

theorem exists_route_of_filterCondition (typed : r.hasTextTypes = true) {schema : String} {path : List String} {raw : String}
    {c : Condition} (h : r.filterCondition (.str schema) path raw = .ok (some c)) :
    ∃ via f, Route r (.str schema) path via f := by
  obtain ⟨found, condition, hfound, hcondition, hsome⟩ := exists_filterCondition_eq_ok typed schema path raw
  obtain rfl := Except.ok.inj (h.symm.trans hcondition)
  obtain ⟨f, rfl, -⟩ := hsome.1 rfl
  obtain ⟨via, hvia⟩ := exists_route path hfound
  exact ⟨via, f, hvia⟩

theorem Route.document_of_filterCondition {schema : Value} {path : List String} {via : List Field} {f : Field}
    (h : Route r schema path via f) {raw : String} {c : Condition} (hc : r.filterCondition schema path raw = .ok (some c)) :
    f.isComparable = true ∧ ∃ v, f.valueOf raw = .ok v ∧ c.document = via.foldr Field.wrapped (f.compared v) := by
  obtain ⟨hf, v, hv, rfl⟩ := h.of_filterCondition hc
  exact ⟨hf, v, hv, by rw [Condition.document_nest, Field.document_compare]⟩

/-- **The document of a filter condition.**  A path gives a condition exactly if it ends on a field that can be compared,
and then the comparison stands inside one entry for each field on the way, the first of them outermost. -/
theorem filterCondition_document (typed : r.hasTextTypes = true) (schema : String) (path : List String) (raw : String) :
    ∃ found condition, r.fieldAt (.str schema) path = .ok found ∧ r.filterCondition (.str schema) path raw = .ok condition ∧
      (condition.isSome = true ↔ ∃ f, found = some f ∧ f.isComparable = true) ∧
      ∀ c, condition = some c → ∃ f via v, found = some f ∧ Route r (.str schema) path via f ∧
        path = via.map Field.label ++ [f.label] ∧ f.valueOf raw = .ok v ∧
        c.document = via.foldr Field.wrapped (f.compared v) := by
  obtain ⟨found, condition, hfound, hcondition, hsome⟩ := exists_filterCondition_eq_ok typed schema path raw
  refine ⟨found, condition, hfound, hcondition, hsome, ?_⟩
  rintro c rfl
  obtain ⟨f, rfl, -⟩ := hsome.1 rfl
  obtain ⟨via, hvia⟩ := exists_route path hfound
  obtain ⟨-, v, hv, hdocument⟩ := hvia.document_of_filterCondition hcondition
  exact ⟨f, via, v, rfl, hvia, hvia.labels.symm, hv, hdocument⟩

/-- A path of five names that passes a list of either sort and comes back to the schema it began in. -/
theorem filterCondition_document_orchard :
    orchard.hasTextTypes = true ∧
      ∃ c, orchard.filterCondition (.str "Tree") ["children", "views", "tree", "place", "label"] "hill" = .ok (some c) ∧
        c.document = .only "children" (.only "some" (.only "views" (.only "some" (.only "is"
          (.only "tree" (.only "place" (.only "is" (.only "label" (.str "hill"))))))))) := by
  have typed : orchard.hasTextTypes = true := by decide
  obtain ⟨found, condition, hfound, hcondition, hsome, hdocument⟩ :=
    filterCondition_document typed "Tree" ["children", "views", "tree", "place", "label"] "hill"
  have hroute : Route orchard (.str "Tree") ["children", "views", "tree", "place", "label"] _ _ :=
    .step rfl rfl (.step rfl rfl (.step rfl rfl (.step rfl rfl (.last rfl))))
  obtain rfl := Except.ok.inj (hfound.symm.trans hroute.fieldAt)
  obtain ⟨c, rfl⟩ := Option.isSome_iff_exists.1 (hsome.2 ⟨_, rfl, rfl⟩)
  obtain ⟨f, via, v, -, hvia, -, hv, hc⟩ := hdocument c rfl
  obtain ⟨rfl, rfl⟩ := hroute.unique hvia
  obtain rfl := Except.ok.inj hv
  exact ⟨typed, c, hcondition, hc⟩

end Registry
end ListQuery
