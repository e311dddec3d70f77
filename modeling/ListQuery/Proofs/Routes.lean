import ListQuery.Proofs.Success
import ListQuery.Query.FilterPairs
import ListQuery.Query.SearchPaths
/-!
# Routes through a registry

A *route* is what a path passes on its way: each field but the last is an object field, and its type is the schema in which
the next name is looked up.  A schema may lead back to itself, so routes have any length.  `fieldAt` counts its way along a
path, while `filterCondition` and `searchCondition` take the path apart.  Main statements: `fieldAt_eq_some_iff` (the field
at the end of a path is the end of its route), `filterCondition_of_route` and `searchCondition_of_route` (the condition is
the leaf of the last field inside the layers of the others), and `conditionAt_eq_none` (nothing where there is no route).
-/
namespace ListQuery

/-! ## Registries of texts -/

def Value.isText : Value → Bool
  | .str _ => true
  | _ => false

theorem Value.isText_iff {v : Value} : v.isText = true ↔ ∃ s, v = .str s := by
  cases v <;> simp [Value.isText]

namespace Registry

def schemas (r : Registry) : List Model := (r.models ++ r.composites).map Prod.snd

def hasTextTypes (r : Registry) : Bool := r.schemas.all fun m => m.fields.all fun f => f.type.isText

/-- Whether the name of every model, composite and field is a text, and the type of every field as well. -/
def isTextual (r : Registry) : Bool :=
  (r.modelNames ++ r.compositeNames).all Value.isText && (r.schemas.all fun m => m.fields.all fun f => f.name.isText) &&
    r.hasTextTypes

end Registry

theorem Value.eq_str_of_sameKey {v : Value} {s : String} (h : v.sameKey (.str s) = true) : v = .str s := by
  cases v <;> simp_all [Value.sameKey, Value.sameNumber?, Value.asInt?]

/-- A registry of two schemas that lead back to each other, with object fields of all four kinds. -/
def Registry.orchard : Registry where
  models := [(.str "Tree", ⟨.str "Tree",
    [⟨.str "name", .scalar (.str "String"), false⟩, ⟨.str "tags", .scalar (.str "String"), true⟩,
      ⟨.str "height", .scalar (.str "Int"), false⟩, ⟨.str "parent", .object (.str "Tree") (some (.str "Ancestry")), false⟩,
      ⟨.str "children", .object (.str "Tree") (some (.str "Ancestry")), true⟩,
      ⟨.str "place", .object (.str "Place") none, false⟩, ⟨.str "views", .object (.str "Place") none, true⟩], false⟩)]
  composites := [(.str "Place", ⟨.str "Place",
    [⟨.str "label", .scalar (.str "String"), false⟩,
      ⟨.str "tree", .object (.str "Tree") (some (.str "Site")), false⟩], true⟩)]
  enums := []

namespace Registry

variable {r : Registry}

theorem mem_schemas_of_find? {name : Value} {m : Model} (h : r.find? name = some m) : m ∈ r.schemas := by
  rw [schemas, List.map_append, List.mem_append]
  rcases Option.or_eq_some_iff.1 h with h | ⟨-, h⟩
  · exact .inl (Entries.mem_of_find? h)
  · exact .inr (Entries.mem_of_find? h)

/-! ## One field -/

theorem field?_str (r : Registry) (schema name : String) :
    r.field? (.str schema) name = .ok ((r.find? (.str schema)).bind fun m => m.field? name) := rfl

theorem of_field? {schema : Value} {name : String} {f : Field} (h : r.field? schema name = .ok (some f)) :
    (∃ m ∈ r.schemas, f ∈ m.fields) ∧ f.name = .str name := by
  simp only [field?, lookup, bind_eq_ok_iff, pure_eq_ok, Except.ok.injEq] at h
  obtain ⟨_, ⟨-, -, rfl⟩, h⟩ := h
  obtain ⟨m, hm, hf⟩ := Option.bind_eq_some_iff.1 h
  refine ⟨⟨m, mem_schemas_of_find? hm, List.mem_reverse.1 (List.mem_of_find?_eq_some hf)⟩, ?_⟩
  have named : f.isNamed name = true := List.find?_some hf
  exact Value.eq_str_of_sameKey named

theorem label_of_field? {schema : Value} {name : String} {f : Field} (h : r.field? schema name = .ok (some f)) :
    f.label = name := by
  rw [Field.label, (of_field? h).2, Value.display]

theorem type_of_field? (typed : r.hasTextTypes = true) {schema : Value} {name : String} {f : Field}
    (h : r.field? schema name = .ok (some f)) : ∃ s, f.type = .str s := by
  obtain ⟨⟨m, hm, hf⟩, -⟩ := of_field? h
  exact Value.isText_iff.1 (List.all_eq_true.1 (List.all_eq_true.1 typed m hm) f hf)

/-! ## Routes -/

/-- **A route**: `path` leads from `schema` through the fields `via`, the outermost first, to `f`. -/
inductive Route (r : Registry) : (schema : Value) → (path : List String) → (via : List Field) → (f : Field) → Prop
  | last {schema name f} : r.field? schema name = .ok (some f) → Route r schema [name] [] f
  | step {schema name rest g via f} : r.field? schema name = .ok (some g) → g.isObject = true →
      Route r g.type rest via f → Route r schema (name :: rest) (g :: via) f

variable {schema : Value} {path : List String} {via : List Field} {f : Field}

theorem Route.path_ne_nil (h : Route r schema path via f) : path ≠ [] := by
  cases h <;> exact List.cons_ne_nil _ _

theorem Route.labels (h : Route r schema path via f) : via.map Field.label ++ [f.label] = path := by
  induction h with
  | last hf => rw [List.map_nil, List.nil_append, label_of_field? hf]
  | step hg _ _ ih => rw [List.map_cons, List.cons_append, label_of_field? hg, ih]

theorem Route.text_type (typed : r.hasTextTypes = true) (h : Route r schema path via f) : ∃ s, f.type = .str s := by
  induction h with
  | last hf => exact type_of_field? typed hf
  | step _ _ _ ih => exact ih

theorem Route.unique (h : Route r schema path via f) :
    ∀ {via' : List Field} {f' : Field}, Route r schema path via' f' → via = via' ∧ f = f' := by
  induction h with
  | last hf =>
    rintro _ _ (hf' | ⟨_, _, h'⟩)
    · exact ⟨rfl, Option.some.inj (Except.ok.inj (hf.symm.trans hf'))⟩
    · exact absurd rfl h'.path_ne_nil
  | step hg _ hr ih =>
    rintro _ _ (_ | ⟨hg', _, hr'⟩)
    · exact absurd rfl hr.path_ne_nil
    · obtain rfl := Option.some.inj (Except.ok.inj (hg.symm.trans hg'))
      obtain ⟨rfl, rfl⟩ := ih hr'
      exact ⟨rfl, rfl⟩

theorem follow_succ {count : Nat} (h : 0 < count) : ∀ (rest : List String) (index : Nat) (schema : Value),
    r.follow (count + 1) (index + 1) schema rest = r.follow count index schema rest
  | [], _, _ => rfl
  | name :: rest, index, schema => by
    have hindex : index + 1 = count + 1 - 1 ↔ index = count - 1 := by omega
    simp only [follow, hindex, follow_succ h rest]

theorem fieldAt_singleton (schema : Value) (name : String) : r.fieldAt schema [name] = r.field? schema name := by
  show (r.field? schema name >>= fun found => _) = _
  cases r.field? schema name with
  | error => rfl
  | ok found => cases found <;> rfl

theorem fieldAt_cons_cons (schema : Value) (name next : String) (rest : List String) :
    r.fieldAt schema (name :: next :: rest) = r.field? schema name >>= fun found =>
      match found with
      | none => .ok none
      | some g => if g.isObject then r.fieldAt g.type (next :: rest) else .ok none := by
  have hindex : ¬0 = (name :: next :: rest).length - 1 := by simp
  -- past the first name, what is left of the path is followed as a path of its own
  have hrest : ∀ g : Field, r.follow (name :: next :: rest).length (0 + 1) g.type (next :: rest) =
      r.fieldAt g.type (next :: rest) := fun g => follow_succ (by simp) (next :: rest) 0 g.type
  rw [fieldAt, follow]
  simp only [if_neg hindex, hrest]
  rfl

theorem fieldAt_step {name : String} {rest : List String} {g : Field} (hg : r.field? schema name = .ok (some g))
    (ho : g.isObject = true) (hr : rest ≠ []) : r.fieldAt schema (name :: rest) = r.fieldAt g.type rest := by
  obtain ⟨next, rest, rfl⟩ := List.exists_cons_of_ne_nil hr
  rw [fieldAt_cons_cons, hg, ok_bind]
  exact if_pos ho

theorem fieldAt_cons_cons_eq_ok {name next : String} {rest : List String} {found : Option Field}
    (h : r.fieldAt schema (name :: next :: rest) = .ok found) :
    (r.field? schema name = .ok none ∧ found = none) ∨ ∃ g, r.field? schema name = .ok (some g) ∧
      (g.isObject = false ∧ found = none ∨ g.isObject = true ∧ r.fieldAt g.type (next :: rest) = .ok found) := by
  rw [fieldAt_cons_cons, bind_eq_ok_iff] at h
  obtain ⟨_ | g, hg, h⟩ := h
  · exact .inl ⟨hg, (Except.ok.inj h).symm⟩
  · refine .inr ⟨g, hg, ?_⟩
    cases ho : g.isObject with
    | false =>
      simp only [ho, Bool.false_eq_true, if_false] at h
      exact .inl ⟨rfl, (Except.ok.inj h).symm⟩
    | true =>
      simp only [ho, if_true] at h
      exact .inr ⟨rfl, h⟩

theorem exists_route (path : List String) :
    ∀ {schema : Value} {f : Field}, r.fieldAt schema path = .ok (some f) → ∃ via, Route r schema path via f := by
  induction path with
  | nil => intro schema f h; cases h
  | cons name rest ih =>
    intro schema f h
    cases rest with
    | nil => exact ⟨[], .last (fieldAt_singleton schema name ▸ h)⟩
    | cons next rest =>
      obtain ⟨-, hf⟩ | ⟨g, hg, ⟨-, hf⟩ | ⟨ho, h⟩⟩ := fieldAt_cons_cons_eq_ok h
      · cases hf
      · cases hf
      · obtain ⟨via, hvia⟩ := ih h
        exact ⟨g :: via, .step hg ho hvia⟩

theorem Route.fieldAt (h : Route r schema path via f) : r.fieldAt schema path = .ok (some f) := by
  induction h with
  | last hf => rw [fieldAt_singleton, hf]
  | step hg ho hr ih => rw [fieldAt_step hg ho hr.path_ne_nil, ih]

theorem fieldAt_eq_some_iff : r.fieldAt schema path = .ok (some f) ↔ ∃ via, Route r schema path via f :=
  ⟨exists_route path, fun ⟨_, h⟩ => h.fieldAt⟩

theorem exists_fieldAt_eq_ok (typed : r.hasTextTypes = true) (path : List String) :
    ∀ schema : String, ∃ found, r.fieldAt (.str schema) path = .ok found := by
  induction path with
  | nil => exact fun schema => ⟨none, rfl⟩
  | cons name rest ih =>
    intro schema
    cases rest with
    | nil => exact ⟨_, fieldAt_singleton _ name⟩
    | cons next rest =>
      cases hg : (r.find? (.str schema)).bind fun m => m.field? name with
      | none => exact ⟨none, by rw [fieldAt_cons_cons, field?_str, hg, ok_bind]⟩
      | some g =>
        cases ho : g.isObject with
        | false =>
          refine ⟨none, ?_⟩
          rw [fieldAt_cons_cons, field?_str, hg, ok_bind]
          simp only [ho, Bool.false_eq_true, if_false]
        | true =>
          have hf : r.field? (.str schema) name = .ok (some g) := by rw [field?_str, hg]
          obtain ⟨s, hs⟩ := type_of_field? typed hf
          obtain ⟨found, hfound⟩ := ih s
          exact ⟨found, by rw [fieldAt_step hf ho (List.cons_ne_nil _ _), hs, hfound]⟩

/-! ## Conditions along a route

Both builders of conditions walk a path in the same way and differ in what they make of its last field. -/

/-- The condition at the end of a path, where `leaf` says what the last field gives. -/
def conditionAt (r : Registry) (leaf : Field → Except Fault (Option Condition)) (schema : Value) : (path : List String) →
    Except Fault (Option Condition)
  | [] => .ok none
  | [name] => do
    match ← r.field? schema name with
    | none => return none
    | some f => leaf f
  | name :: rest => do
    match ← r.field? schema name with
    | none => return none
    | some g => if g.isObject then return (← r.conditionAt leaf g.type rest).map (.within g.layer) else return none

theorem conditionAt_cons_cons (r : Registry) (leaf : Field → Except Fault (Option Condition)) (schema : Value)
    (name next : String) (rest : List String) :
    r.conditionAt leaf schema (name :: next :: rest) = r.field? schema name >>= fun found =>
      match found with
      | none => .ok none
      | some g =>
        if g.isObject then r.conditionAt leaf g.type (next :: rest) >>= fun c => .ok (c.map (.within g.layer))
        else .ok none := rfl

/-- **What the last field gives stands inside the layers of the fields before it.** -/
theorem conditionAt_of_route (leaf : Field → Except Fault (Option Condition)) (h : Route r schema path via f) :
    r.conditionAt leaf schema path = leaf f >>= fun c => .ok (c.map (.nest (via.map Field.layer))) := by
  induction h with
  | @last schema name f hf =>
    rw [conditionAt, hf, ok_bind]
    cases hc : leaf f with
    | error => simp only [hc, error_bind]
    | ok c => cases c <;> simp [hc, Condition.nest]
  | @step schema name rest g via f hg ho hr ih =>
    obtain ⟨next, rest, rfl⟩ := List.exists_cons_of_ne_nil hr.path_ne_nil
    rw [conditionAt_cons_cons, hg, ok_bind]
    simp only [ho, if_true, ih]
    cases leaf f with
    | error => rfl
    | ok c => cases c <;> rfl

theorem conditionAt_eq_none (leaf : Field → Except Fault (Option Condition)) (path : List String) :
    ∀ {schema : Value}, r.fieldAt schema path = .ok none → r.conditionAt leaf schema path = .ok none := by
  induction path with
  | nil => exact fun _ => rfl
  | cons name rest ih =>
    intro schema h
    cases rest with
    | nil =>
      rw [fieldAt_singleton] at h
      rw [conditionAt, h]; rfl
    | cons next rest =>
      rw [conditionAt_cons_cons]
      obtain ⟨hg, -⟩ | ⟨g, hg, ⟨ho, -⟩ | ⟨ho, h⟩⟩ := fieldAt_cons_cons_eq_ok h
      · rw [hg, ok_bind]
      · simp only [hg, ok_bind, ho, Bool.false_eq_true, if_false]
      · simp only [hg, ok_bind, ho, if_true, ih h, Option.map_none]

def filterLeaf (raw : String) (f : Field) : Except Fault (Option Condition) :=
  if f.isComparable then f.valueOf raw >>= fun v => .ok (some (.compare f v)) else .ok none

def searchLeaf (mode : Option Value) (term : String) (f : Field) : Except Fault (Option Condition) :=
  .ok (if f.isSearchable then some (.contains f.label term mode) else none)

theorem filterCondition_eq_conditionAt (r : Registry) (raw : String) (path : List String) :
    ∀ schema, r.filterCondition schema path raw = r.conditionAt (filterLeaf raw) schema path := by
  induction path with
  | nil => exact fun _ => rfl
  | cons name rest ih =>
    intro schema
    cases rest with
    | nil => rfl
    | cons next rest =>
      rw [conditionAt_cons_cons]
      simp only [← ih]
      rfl

theorem searchCondition_eq_conditionAt (r : Registry) (mode : Option Value) (term : String) (path : List String) :
    ∀ schema, r.searchCondition mode schema path term = r.conditionAt (searchLeaf mode term) schema path := by
  induction path with
  | nil => exact fun _ => rfl
  | cons name rest ih =>
    intro schema
    cases rest with
    | nil =>
      rw [searchCondition, conditionAt]
      congr 1
      funext found
      cases found with
      | none => rfl
      | some f => cases hs : f.isSearchable <;> simp [searchLeaf, hs]
    | cons next rest =>
      rw [conditionAt_cons_cons]
      simp only [← ih]
      rfl

/-- **A filter condition is the comparison at the end of the route**, if the last field can be compared. -/
theorem filterCondition_of_route (h : Route r schema path via f) (raw : String) :
    r.filterCondition schema path raw =
      if f.isComparable then f.valueOf raw >>= fun v => .ok (some (.nest (via.map Field.layer) (.compare f v)))
      else .ok none := by
  rw [filterCondition_eq_conditionAt, conditionAt_of_route _ h, filterLeaf]
  cases f.isComparable with
  | false => rfl
  | true => cases f.valueOf raw <;> rfl

theorem Route.of_filterCondition (h : Route r schema path via f) {raw : String} {c : Condition}
    (hc : r.filterCondition schema path raw = .ok (some c)) :
    f.isComparable = true ∧ ∃ v, f.valueOf raw = .ok v ∧ c = .nest (via.map Field.layer) (.compare f v) := by
  rw [filterCondition_of_route h] at hc
  split at hc
  · rename_i hf
    obtain ⟨v, hv, hc⟩ := bind_eq_ok_iff.1 hc
    exact ⟨hf, v, hv, (Option.some.inj (Except.ok.inj hc)).symm⟩
  · cases hc

theorem filterCondition_eq_none (raw : String) (h : r.fieldAt schema path = .ok none) :
    r.filterCondition schema path raw = .ok none := by
  rw [filterCondition_eq_conditionAt, conditionAt_eq_none _ path h]

/-- **A search condition is the substring test at the end of the route**, if the last field can be searched. -/
theorem searchCondition_of_route (h : Route r schema path via f) (mode : Option Value) (term : String) :
    r.searchCondition mode schema path term =
      .ok (if f.isSearchable then some (.nest (via.map Field.layer) (.contains f.label term mode)) else none) := by
  rw [searchCondition_eq_conditionAt, conditionAt_of_route _ h, searchLeaf, ok_bind]
  cases f.isSearchable <;> rfl

theorem searchCondition_eq_none (mode : Option Value) (term : String) (h : r.fieldAt schema path = .ok none) :
    r.searchCondition mode schema path term = .ok none := by
  rw [searchCondition_eq_conditionAt, conditionAt_eq_none _ path h]

theorem isSearchable_of_fieldAt {found : Option Field} (h : r.fieldAt schema path = .ok found) :
    r.isSearchable schema path = .ok (found.any Field.isSearchable) := by
  rw [isSearchable, h]
  rfl

end Registry
end ListQuery
