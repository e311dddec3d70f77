import ListQuery.Proofs.ContentEquality
import ListQuery.Proofs.FilterDocuments
/-!
# Conditions can be decoded

Layers, field names and the values of a JSON field share one space of keys, so that a document alone does not tell which of
its entries are layers.  The registry does: each field that is reached says how many entries stand around the next one.
Main statement: `filterCondition_decodable` (of two filters from one schema, the documents are equal only if paths and values
are).
-/
namespace ListQuery

/-- Sameness of documents that looks into entries: two maps of one entry are the same exactly if their keys are equal and
their values the same. -/
def Entrywise (same : Value → Value → Prop) : Prop :=
  ∀ k l v w, same (.only k v) (.only l w) ↔ k = l ∧ same v w

theorem entrywise_eq : Entrywise (· = ·) := by
  intro k l v w
  simp [Value.only]

theorem entrywise_sameContent : Entrywise fun v w => v.sameContent w = true := by
  intro k l v w
  have hlookup : Value.lookup? k [(l, w)] = if l = k then some w else none := by
    simp [Value.lookup?, Entries.find?]
  simp only [Value.only, Value.sameContent, Value.sameEntriesIn, hlookup, List.length_singleton, beq_self_eq_true,
    Bool.true_and, Bool.and_true]
  by_cases h : l = k
  · simp [h]
  · simp [h, Ne.symm h]

/-! ## One field -/

namespace Field

variable {same : Value → Value → Prop}

theorem exists_wrapped_eq (g : Field) (inner : Value) : ∃ below, g.wrapped inner = .only g.label below := by
  unfold wrapped
  cases g.isJoined <;> cases g.isList <;> exact ⟨_, rfl⟩

theorem exists_compared_eq (f : Field) (v : Value) : ∃ below, f.compared v = .only f.label below := by
  unfold compared
  split <;> exact ⟨_, rfl⟩

theorem same_wrapped_iff (hsame : Entrywise same) (g : Field) (v w : Value) :
    same (g.wrapped v) (g.wrapped w) ↔ same v w := by
  unfold wrapped
  cases g.isJoined <;> cases g.isList <;> simp [hsame _ _ _ _]

theorem same_compared_iff (hsame : Entrywise same) (f : Field) (v w : Value) :
    same (f.compared v) (f.compared w) ↔ same v w := by
  unfold compared
  split <;> simp [hsame _ _ _ _]

end Field

/-! ## Whole paths -/

namespace Registry

variable {r : Registry} {same : Value → Value → Prop} {schema : Value}

def routeDocument (via : List Field) (f : Field) (v : Value) : Value := via.foldr Field.wrapped (f.compared v)

theorem Route.exists_routeDocument_eq {name : String} {rest : List String} {via : List Field} {f : Field}
    (h : Route r schema (name :: rest) via f) (v : Value) : ∃ below, routeDocument via f v = .only name below := by
  cases h with
  | last hf =>
    obtain ⟨below, hbelow⟩ := f.exists_compared_eq v
    exact ⟨below, label_of_field? hf ▸ hbelow⟩
  | @step _ _ _ g via _ hg _ _ =>
    obtain ⟨below, hbelow⟩ := g.exists_wrapped_eq (routeDocument via f v)
    exact ⟨below, label_of_field? hg ▸ hbelow⟩

theorem Route.head_eq (hsame : Entrywise same) {name name' : String} {rest rest' : List String} {via via' : List Field}
    {f f' : Field} (h : Route r schema (name :: rest) via f) (h' : Route r schema (name' :: rest') via' f') {v w : Value}
    (heq : same (routeDocument via f v) (routeDocument via' f' w)) : name = name' := by
  obtain ⟨below, hbelow⟩ := h.exists_routeDocument_eq v
  obtain ⟨below', hbelow'⟩ := h'.exists_routeDocument_eq w
  rw [hbelow, hbelow'] at heq
  exact ((hsame _ _ _ _).1 heq).1

/-- No field both ends a path and leads on. -/
theorem not_isObject_of_isComparable {name : String} {f g : Field} (hf : r.field? schema name = .ok (some f))
    (comparable : f.isComparable = true) (hg : r.field? schema name = .ok (some g)) : ¬g.isObject = true := by
  intro object
  obtain rfl := Option.some.inj (Except.ok.inj (hf.symm.trans hg))
  rw [Field.isComparable, object] at comparable
  cases comparable

/-- **The document tells the path**: at each name both paths stand at one schema, and the field that the name has there says
whether the path ends. -/
theorem Route.path_eq (hsame : Entrywise same) {path : List String} {via : List Field} {f : Field}
    (h : Route r schema path via f) (comparable : f.isComparable = true) (v w : Value) :
    ∀ {path' : List String} {via' : List Field} {f' : Field}, Route r schema path' via' f' → f'.isComparable = true →
      same (routeDocument via f v) (routeDocument via' f' w) → path = path' := by
  induction h with
  | @last schema name f hf =>
    intro path' via' f' h' comparable' heq
    cases h' with
    | last hf' => rw [Route.head_eq hsame (.last hf) (.last hf') heq]
    | step hg object hr =>
      obtain rfl := Route.head_eq hsame (.last hf) (.step hg object hr) heq
      exact absurd object (not_isObject_of_isComparable hf comparable hg)
  | @step schema name rest g via f hg object hr ih =>
    intro path' via' f' h' comparable' heq
    cases h' with
    | last hf' =>
      obtain rfl := Route.head_eq hsame (.step hg object hr) (.last hf') heq
      exact absurd object (not_isObject_of_isComparable hf' comparable' hg)
    | step hg' object' hr' =>
      obtain rfl := Route.head_eq hsame (.step hg object hr) (.step hg' object' hr') heq
      obtain rfl := Option.some.inj (Except.ok.inj (hg.symm.trans hg'))
      rw [ih comparable hr' comparable' ((g.same_wrapped_iff hsame _ _).1 heq)]

theorem same_routeDocument_iff (hsame : Entrywise same) (f : Field) (v w : Value) : ∀ via : List Field,
    same (routeDocument via f v) (routeDocument via f w) ↔ same v w
  | [] => f.same_compared_iff hsame v w
  | g :: via => (g.same_wrapped_iff hsame _ _).trans (same_routeDocument_iff hsame f v w via)

theorem Route.same_iff (hsame : Entrywise same) {path path' : List String} {via via' : List Field} {f f' : Field}
    (h : Route r schema path via f) (h' : Route r schema path' via' f') (comparable : f.isComparable = true)
    (comparable' : f'.isComparable = true) (v w : Value) :
    same (routeDocument via f v) (routeDocument via' f' w) ↔ path = path' ∧ same v w := by
  constructor
  · intro heq
    obtain rfl := h.path_eq hsame comparable v w h' comparable' heq
    obtain ⟨rfl, rfl⟩ := h.unique h'
    exact ⟨rfl, (same_routeDocument_iff hsame f v w via).1 heq⟩
  · rintro ⟨rfl, heq⟩
    obtain ⟨rfl, rfl⟩ := h.unique h'
    exact (same_routeDocument_iff hsame f v w via).2 heq

/-- **Conditions can be decoded.**  Of two filters from one schema, the documents are equal exactly if the paths and the
values read are, and they have the same content exactly if the paths are equal and the values have the same content.  Raw
texts of JSON that escape a surrogate without its partner are left out. -/
theorem filterCondition_decodable (typed : r.hasTextTypes = true) (schema : String) {path₁ path₂ : List String}
    {raw₁ raw₂ : String} {c₁ c₂ : Condition} (h₁ : r.filterCondition (.str schema) path₁ raw₁ = .ok (some c₁))
    (h₂ : r.filterCondition (.str schema) path₂ raw₂ = .ok (some c₂)) :
    ∃ f₁ f₂ v₁ v₂, r.fieldAt (.str schema) path₁ = .ok (some f₁) ∧ r.fieldAt (.str schema) path₂ = .ok (some f₂) ∧
      f₁.valueOf raw₁ = .ok v₁ ∧ f₂.valueOf raw₂ = .ok v₂ ∧
      (c₁.document = c₂.document ↔ path₁ = path₂ ∧ v₁ = v₂) ∧
      (c₁.document.sameContent c₂.document = true ↔ path₁ = path₂ ∧ v₁.sameContent v₂ = true) := by
  obtain ⟨via₁, f₁, hroute₁⟩ := exists_route_of_filterCondition typed h₁
  obtain ⟨via₂, f₂, hroute₂⟩ := exists_route_of_filterCondition typed h₂
  obtain ⟨comparable₁, v₁, hv₁, hd₁⟩ := hroute₁.document_of_filterCondition h₁
  obtain ⟨comparable₂, v₂, hv₂, hd₂⟩ := hroute₂.document_of_filterCondition h₂
  rw [← routeDocument] at hd₁ hd₂
  refine ⟨f₁, f₂, v₁, v₂, hroute₁.fieldAt, hroute₂.fieldAt, hv₁, hv₂, ?_, ?_⟩
  · rw [hd₁, hd₂]
    exact hroute₁.same_iff entrywise_eq hroute₂ comparable₁ comparable₂ v₁ v₂
  · rw [hd₁, hd₂]
    exact hroute₁.same_iff entrywise_sameContent hroute₂ comparable₁ comparable₂ v₁ v₂

/-- A registry whose fields are named like the entries that stand around conditions. -/
def bramble : Registry where
  models := [(.str "Bramble", ⟨.str "Bramble",
    [⟨.str "some", .object (.str "Bramble") (some (.str "Runner")), true⟩, ⟨.str "is", .object (.str "Bramble") none, false⟩,
      ⟨.str "has", .scalar (.str "Json"), true⟩, ⟨.str "OR", .scalar (.str "Json"), false⟩], false⟩)]
  composites := []
  enums := []

/-- A value that looks like layers, written twice with its entries in different orders. -/
def thorns : String := "\x7b\"has\":\x7b\"is\":1\x7d,\"OR\":[]\x7d"
def reorderedThorns : String := "\x7b\"OR\": [], \"has\": \x7b\"is\": 1\x7d\x7d"

/-- Three filters: the first two differ in the order of entries, and the third has one layer more. -/
theorem filterCondition_decodable_bramble :
    bramble.hasTextTypes = true ∧ ∃ c₁ c₂ c₃,
      bramble.filterCondition (.str "Bramble") ["some", "is", "has"] thorns = .ok (some c₁) ∧
      bramble.filterCondition (.str "Bramble") ["some", "is", "has"] reorderedThorns = .ok (some c₂) ∧
      bramble.filterCondition (.str "Bramble") ["some", "is", "is", "has"] thorns = .ok (some c₃) ∧
      c₁.document.sameContent c₂.document = true ∧ c₁.document.sameContent c₃.document = false := by
  have typed : bramble.hasTextTypes = true := by decide
  have same : (Raw.json thorns).sameContent (Raw.json reorderedThorns) = true := by decide +kernel
  have h₁ : bramble.filterCondition (.str "Bramble") ["some", "is", "has"] thorns = .ok (some _) := rfl
  have h₂ : bramble.filterCondition (.str "Bramble") ["some", "is", "has"] reorderedThorns = .ok (some _) := rfl
  have h₃ : bramble.filterCondition (.str "Bramble") ["some", "is", "is", "has"] thorns = .ok (some _) := rfl
  refine ⟨typed, _, _, _, h₁, h₂, h₃, ?_, ?_⟩
  · obtain ⟨f₁, f₂, v₁, v₂, hf₁, hf₂, hv₁, hv₂, -, hsame⟩ := filterCondition_decodable typed "Bramble" h₁ h₂
    obtain rfl := Option.some.inj (Except.ok.inj hf₁)
    obtain rfl := Option.some.inj (Except.ok.inj hf₂)
    obtain rfl := Except.ok.inj hv₁
    obtain rfl := Except.ok.inj hv₂
    exact hsame.2 ⟨rfl, same⟩
  · obtain ⟨_, _, _, _, -, -, -, -, -, hsame⟩ := filterCondition_decodable typed "Bramble" h₁ h₃
    rw [Bool.eq_false_iff]
    intro h
    exact absurd (hsame.1 h).1 (by decide)

end Registry
end ListQuery
