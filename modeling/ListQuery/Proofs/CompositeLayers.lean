import ListQuery.Proofs.LoadedRequests
/-!
# Layers of relations and of composites

A field says itself whether it is a relation: it has the name of one, whatever the name is.  The layer of the field asks for
more, a name that is not empty.  The two agree on every field that is read from a document, where an empty name is none, and
on every field that is made otherwise, except for a relation that was given the empty name.  Main statement:
`Registry.layers_of_yields`.
-/
namespace ListQuery

namespace Field

/-- Whether an object field is a relation: it has the name of one. -/
def isRelation (g : Field) : Bool := g.relation?.isSome

/-- Whether the field has the name of a relation that counts as none. -/
def isNameless (g : Field) : Bool := g.relation?.any fun name => !name.isTruthy

/-- A document as it is reached through a field: relations are joined, and composites are matched as structures. -/
def entered (g : Field) (inner : Value) : Value :=
  let matched := if g.isRelation then inner else .only "is" inner
  .only g.label (if g.isList then .only "some" matched else matched)

/-- The four ways in which a field is made of texts. -/
inductive Made : Field → Prop
  | scalar (name type : String) (isList : Bool) : Made ⟨.str name, .scalar (.str type), isList⟩
  | enum (name type : String) (isList : Bool) : Made ⟨.str name, .enum (.str type), isList⟩
  | relation (name type relation : String) (isList : Bool) :
      Made ⟨.str name, .object (.str type) (some (.str relation)), isList⟩
  | composite (name type : String) (isList : Bool) : Made ⟨.str name, .object (.str type) none, isList⟩

variable {f g : Field}

theorem embedded_iff : g.layer.embedded = true ↔ g.isRelation = false ∨ g.isNameless = true := by
  rw [layer, isRelation, isNameless]
  cases g.relation? <;> simp

theorem embedded_iff_of_named (h : g.isNameless = false) : g.layer.embedded = true ↔ g.isRelation = false := by
  simp [embedded_iff, h]

theorem around_eq_entered (h : g.isNameless = false) (inner : Value) : g.layer.around inner = g.entered inner := by
  have hembedded : g.layer.embedded = !g.isRelation := by
    rw [Bool.eq_iff_iff, embedded_iff_of_named h, Bool.not_eq_true']
  have hlayer : g.layer = ⟨g.label, g.isList, !g.isRelation⟩ := by rw [← hembedded]; rfl
  rw [hlayer, Layer.around, entered]
  cases g.isRelation <;> rfl

theorem Made.isNameless_iff (h : f.Made) : f.isNameless = true ↔ f.relation? = some (.str "") := by
  cases h <;> simp [isNameless, relation?, Value.isTruthy]

theorem isRelation_of_isNameless (h : g.isNameless = true) : g.isRelation = true := by
  rw [isNameless] at h
  rw [isRelation]
  cases hr : g.relation? with
  | none => rw [hr] at h; cases h
  | some => rfl

/-! ## Fields of documents -/

theorem isNameless_of_ofTag? {tag type relation : Value} (h : Kind.ofTag? tag type relation = some f.kind) :
    f.isNameless = false := by
  have hno : ∀ {kind : Kind}, some kind = some f.kind → (∀ target name, kind = .object target (some name) →
      name.isTruthy = true) → f.isNameless = false := by
    intro kind hkind hnamed
    rw [isNameless, relation?, ← Option.some.inj hkind]
    cases kind with
    | object target name =>
      cases name with
      | none => rfl
      | some name => simp [hnamed target name rfl]
    | _ => rfl
  unfold Kind.ofTag? at h
  split at h
  · split at h
    · exact hno h nofun
    · exact hno h nofun
    · refine hno h ?_
      rintro target name hobject
      cases hrelation : relation.isTruthy with
      | false => simp [hrelation] at hobject
      | true =>
        simp only [hrelation, if_true, Kind.object.injEq, Option.some.injEq] at hobject
        exact hobject.2 ▸ hrelation
    · cases h
  · cases h

theorem isNameless_of_ofDocument {model raw : Value} (h : ofDocument model raw = .ok f) : f.isNameless = false := by
  obtain ⟨entries, -, h⟩ := bind_eq_ok_iff.1 h
  dsimp only at h
  split at h
  · split at h
    · rename_i kind hkind
      obtain rfl := Except.ok.inj h
      exact isNameless_of_ofTag? hkind
    · cases h
  · cases h

end Field

theorem Model.isNameless_of_ofDocument {isComposite : Bool} {raw : Value} {m : Model}
    (h : ofDocument isComposite raw = .ok m) : ∀ f ∈ m.fields, f.isNameless = false := by
  obtain ⟨entries, -, h⟩ := bind_eq_ok_iff.1 h
  dsimp only at h
  split at h
  · simp only [bind_eq_ok_iff] at h
    obtain ⟨raws, -, fields, hfields, h⟩ := h
    obtain ⟨_, -, h⟩ := bind_eq_ok_iff.1 h
    obtain rfl := Except.ok.inj h
    intro f hf
    obtain ⟨raw, -, hraw⟩ := exists_of_mem_of_forall₂ (mapM_eq_ok_iff.1 hfields) f hf
    exact Field.isNameless_of_ofDocument hraw
  · cases h

namespace Registry

variable {r : Registry} {schema : Value} {path : List String} {via : List Field} {f g : Field}

/-! ## Where the fields of a registry come from -/

theorem mem_of_get?_ofModels {models : List Model} {name : Value} {m : Model}
    (h : (Table.ofModels models).get? name = some m) : m ∈ models := by
  rw [Table.ofModels, Table.get?_ofEntries, Option.map_eq_some_iff] at h
  obtain ⟨e, he, rfl⟩ := h
  obtain ⟨k, hk, rfl⟩ := List.mem_map.1 (List.mem_reverse.1 (List.mem_of_find?_eq_some he))
  exact hk

theorem exists_fields_of_make {models composites : List Model} {enums : Table (List Value)}
    (hmake : make models composites enums = .ok r) {name : Value} {m : Model} (h : r.find? name = some m) :
    ∃ k ∈ models ++ composites, m.fields = k.fields := by
  obtain rfl := eq_of_make hmake
  rcases Option.or_eq_some_iff.1 h with h | ⟨-, h⟩
  · exact ⟨m, List.mem_append_left _ (mem_of_get?_ofModels h), rfl⟩
  · obtain ⟨k, hk, rfl⟩ := List.mem_map.1 (mem_of_get?_ofModels h)
    exact ⟨k, List.mem_append_right _ hk, rfl⟩

theorem isNameless_of_mem_listed {isComposite : Bool} {key : String} {datamodel : List (String × Value)}
    {models : List Model}
    (h : (listUnder key datamodel >>= fun raws => raws.mapM (Model.ofDocument isComposite)) = .ok models) :
    ∀ m ∈ models, ∀ f ∈ m.fields, f.isNameless = false := by
  intro m hm
  obtain ⟨raws, -, hmodels⟩ := bind_eq_ok_iff.1 h
  obtain ⟨raw, -, hraw⟩ := exists_of_mem_of_forall₂ (mapM_eq_ok_iff.1 hmodels) m hm
  exact Model.isNameless_of_ofDocument hraw

theorem exists_find?_of_field? {name : String} (h : r.field? schema name = .ok (some f)) :
    ∃ m, r.find? schema = some m ∧ f ∈ m.fields := by
  simp only [field?, lookup, bind_eq_ok_iff, pure_eq_ok, Except.ok.injEq] at h
  obtain ⟨_, ⟨-, -, rfl⟩, h⟩ := h
  obtain ⟨m, hm, hf⟩ := Option.bind_eq_some_iff.1 h
  exact ⟨m, hm, List.mem_reverse.1 (List.mem_of_find?_eq_some hf)⟩

theorem Route.of_mem (h : Route r schema path via f) :
    ∀ g ∈ via, g.isObject = true ∧ ∃ name m, r.find? name = some m ∧ g ∈ m.fields := by
  induction h with
  | last => exact fun g hg => nomatch hg
  | step hg ho _ ih =>
    intro g hmem
    rcases List.mem_cons.1 hmem with rfl | hmem
    · exact ⟨ho, _, exists_find?_of_field? hg⟩
    · exact ih g hmem

/-! ## Conditions -/

/-- A path yields a condition: the filter of a raw value, or the search for a term. -/
inductive Yields (r : Registry) (schema : Value) (path : List String) (c : Condition) : Prop
  | filter (raw : String) : r.filterCondition schema path raw = .ok (some c) → Yields r schema path c
  | search (mode : Option Value) (term : String) : r.searchCondition mode schema path term = .ok (some c) →
      Yields r schema path c

/-- What stands at the end of a path: the last field is compared with a value, or searched for a term. -/
inductive Ends (f : Field) : Condition → Prop
  | compared (v : Value) : Ends f (.compare f v)
  | searched (term : String) (mode : Option Value) : Ends f (.contains f.label term mode)

theorem exists_route_of_conditionAt {leaf : Field → Except Fault (Option Condition)} {c : Condition}
    (h : r.conditionAt leaf schema path = .ok (some c)) :
    ∃ via f inner, Route r schema path via f ∧ leaf f = .ok (some inner) ∧ c = .nest (via.map Field.layer) inner := by
  cases hfound : r.fieldAt schema path with
  | error fault => cases h.symm.trans (conditionAt_eq_error leaf path hfound)
  | ok found =>
    cases found with
    | none => cases h.symm.trans (conditionAt_eq_none leaf path hfound)
    | some f =>
      obtain ⟨via, hvia⟩ := exists_route path hfound
      rw [conditionAt_of_route leaf hvia, bind_eq_ok_iff] at h
      obtain ⟨inner, hinner, h⟩ := h
      obtain ⟨inner, rfl, hc⟩ := Option.map_eq_some_iff.1 (Except.ok.inj h)
      exact ⟨via, f, inner, hvia, hinner, hc.symm⟩

theorem Yields.exists_route {c : Condition} (h : r.Yields schema path c) :
    ∃ via f inner, Route r schema path via f ∧ Ends f inner ∧ c = .nest (via.map Field.layer) inner := by
  cases h with
  | filter raw h =>
    rw [filterCondition_eq_conditionAt] at h
    obtain ⟨via, f, inner, hvia, hleaf, hc⟩ := exists_route_of_conditionAt h
    unfold filterLeaf at hleaf
    split at hleaf
    · obtain ⟨v, -, hinner⟩ := bind_eq_ok_iff.1 hleaf
      obtain rfl := Option.some.inj (Except.ok.inj hinner)
      exact ⟨via, f, _, hvia, .compared v, hc⟩
    · cases hleaf
  | search mode term h =>
    rw [searchCondition_eq_conditionAt] at h
    obtain ⟨via, f, inner, hvia, hleaf, hc⟩ := exists_route_of_conditionAt h
    have hinner := Except.ok.inj hleaf
    split at hinner
    · obtain rfl := Option.some.inj hinner
      exact ⟨via, f, _, hvia, .searched term mode, hc⟩
    · cases hinner

theorem document_nest_of_named (hnamed : ∀ g ∈ via, g.isNameless = false) (inner : Condition) :
    (Condition.nest (via.map Field.layer) inner).document = via.foldr Field.entered inner.document := by
  induction via with
  | nil => rfl
  | cons g via ih =>
    have hdocument : (Condition.nest ((g :: via).map Field.layer) inner).document =
        g.layer.around (Condition.nest (via.map Field.layer) inner).document := rfl
    rw [hdocument, ih fun g hg => hnamed g (List.mem_cons_of_mem _ hg), List.foldr_cons,
      Field.around_eq_entered (hnamed g List.mem_cons_self)]

theorem Route.isNameless_of_ofDocument {document : Value} (h : Route r schema path via f)
    (hr : ofDocument document = .ok r) : ∀ g ∈ via, g.isNameless = false := by
  intro g hg
  obtain ⟨_, _, models, composites, enums, -, -, hmodels, hcomposites, hmake⟩ := exists_make_of_ofDocument hr
  obtain ⟨-, name, m, hm, hmem⟩ := h.of_mem g hg
  obtain ⟨k, hk, hfields⟩ := exists_fields_of_make hmake hm
  rw [hfields] at hmem
  rcases List.mem_append.1 hk with hk | hk
  · exact isNameless_of_mem_listed hmodels k hk g hmem
  · exact isNameless_of_mem_listed hcomposites k hk g hmem

theorem Route.isNameless_iff_of_made {models composites : List Model} {enums : Table (List Value)}
    (h : Route r schema path via f) (hmake : make models composites enums = .ok r)
    (hmade : ∀ m ∈ models ++ composites, ∀ f ∈ m.fields, f.Made) :
    ∀ g ∈ via, (g.isNameless = true ↔ g.relation? = some (.str "")) := by
  intro g hg
  obtain ⟨-, name, m, hm, hmem⟩ := h.of_mem g hg
  obtain ⟨k, hk, hfields⟩ := exists_fields_of_make hmake hm
  exact (hmade k hk g (hfields ▸ hmem)).isNameless_iff

/-- **The layers of a condition**, be it of a filter or of a search.  The layer of a field on the way is that of a
composite if the field is no relation, or if it is one whose name counts as none.  A registry that is read from a
document has no such relations, so that its conditions have the layers that the fields themselves ask for.  In a
registry whose fields are made of texts, the layer and the field disagree exactly at a relation with the empty name. -/
theorem layers_of_yields {c : Condition} (h : r.Yields schema path c) :
    ∃ via f inner, Route r schema path via f ∧ Ends f inner ∧ c = .nest (via.map Field.layer) inner ∧
      (∀ g ∈ via, g.isObject = true ∧ (g.layer.embedded = true ↔ g.isRelation = false ∨ g.isNameless = true)) ∧
      (∀ document, ofDocument document = .ok r → c.document = via.foldr Field.entered inner.document ∧
        ∀ g ∈ via, (g.layer.embedded = true ↔ g.isRelation = false)) ∧
      ∀ models composites enums, make models composites enums = .ok r →
        (∀ m ∈ models ++ composites, ∀ f ∈ m.fields, f.Made) →
          ∀ g ∈ via, ((g.layer.embedded = true ↔ g.isRelation = false) ↔ g.relation? ≠ some (.str "")) := by
  obtain ⟨via, f, inner, hvia, hends, rfl⟩ := h.exists_route
  refine ⟨via, f, inner, hvia, hends, rfl, fun g hg => ⟨(hvia.of_mem g hg).1, Field.embedded_iff⟩, ?_, ?_⟩
  · intro document hr
    have hnamed := hvia.isNameless_of_ofDocument hr
    exact ⟨document_nest_of_named hnamed inner, fun g hg => Field.embedded_iff_of_named (hnamed g hg)⟩
  · intro models composites enums hmake hmade g hg
    rw [Ne, ← hvia.isNameless_iff_of_made hmake hmade g hg, Field.embedded_iff]
    by_cases hnameless : g.isNameless = true
    · simp [hnameless, Field.isRelation_of_isNameless hnameless]
    · simp [hnameless]

/-- Trees with a relation of the empty name among three other object fields. -/
def nurseryModels : List Model :=
  [⟨.str "Tree", [⟨.str "name", .scalar (.str "String"), false⟩,
    ⟨.str "parent", .object (.str "Tree") (some (.str "")), false⟩,
    ⟨.str "grafts", .object (.str "Tree") (some (.str "Grafting")), true⟩,
    ⟨.str "place", .object (.str "Place") none, false⟩], false⟩]

def nurseryComposites : List Model :=
  [⟨.str "Place", [⟨.str "trees", .object (.str "Tree") (some (.str "Site")), true⟩], true⟩]

def nursery : Registry where
  models := .ofModels nurseryModels
  composites := .ofModels nurseryComposites
  enums := []

theorem made_of_mem_nursery : ∀ m ∈ nurseryModels ++ nurseryComposites, ∀ f ∈ m.fields, f.Made := by
  simp only [nurseryModels, nurseryComposites, List.cons_append, List.nil_append, List.forall_mem_cons, List.not_mem_nil,
    false_implies, implies_true, and_true]
  exact ⟨⟨.scalar .., .relation .., .relation .., .composite ..⟩, .relation ..⟩

theorem make_nursery : make nurseryModels nurseryComposites [] = .ok nursery := rfl

theorem layers_of_yields_nursery :
    ∃ c, nursery.Yields (.str "Tree") ["place", "trees", "grafts", "name"] c ∧ ∃ (via : List Field) (inner : Condition),
      c = .nest (via.map Field.layer) inner ∧ via.map Field.label = ["place", "trees", "grafts"] ∧
        via.map Field.isRelation = [false, true, true] ∧ ∀ g ∈ via, (g.layer.embedded = true ↔ g.isRelation = false) := by
  have hyields : nursery.Yields (.str "Tree") ["place", "trees", "grafts", "name"] _ := .filter "oak" rfl
  have hroute : Route nursery (.str "Tree") ["place", "trees", "grafts", "name"] _ _ :=
    .step rfl rfl (.step rfl rfl (.step rfl rfl (.last rfl)))
  obtain ⟨via, f, inner, hvia, -, hc, -, -, hmade⟩ := layers_of_yields hyields
  obtain ⟨rfl, rfl⟩ := hroute.unique hvia
  refine ⟨_, hyields, _, inner, hc, rfl, rfl, fun g hg => ?_⟩
  refine (hmade nurseryModels nurseryComposites [] make_nursery made_of_mem_nursery g hg).2 ?_
  revert g
  simp [Field.relation?]

/-- **A relation of the empty name has the layer of a composite**, though it is a relation by its own test. -/
theorem layers_of_nameless :
    nursery.filterCondition (.str "Tree") ["parent", "name"] "oak" =
        .ok (some (.within ⟨"parent", false, true⟩ (.equals "name" (.str "oak")))) ∧
      ¬∀ (models composites : List Model) (enums : Table (List Value)) (r : Registry) (schema : Value) (path : List String)
          (c : Condition) (via : List Field) (f : Field), make models composites enums = .ok r →
        (∀ m ∈ models ++ composites, ∀ f ∈ m.fields, f.Made) → r.Yields schema path c → Route r schema path via f →
          ∀ g ∈ via, (g.layer.embedded = true ↔ g.isRelation = false) := by
  have hfilter : nursery.filterCondition (.str "Tree") ["parent", "name"] "oak" = .ok (some _) := rfl
  have hroute : Route nursery (.str "Tree") ["parent", "name"] _ _ := .step rfl rfl (.last rfl)
  refine ⟨hfilter, fun h => ?_⟩
  have hlayer := h _ _ _ _ _ _ _ _ _ make_nursery made_of_mem_nursery (.filter "oak" hfilter) hroute _ List.mem_cons_self
  exact absurd (hlayer.1 rfl) (by decide)

end Registry

end ListQuery
