import ListQuery.Proofs.Routes
/-!
# Paths through a registry, cut in two

A path is followed by counting, and the end of the count is what tells its last field from an object field on the way.  Cut
anywhere, it comes to the same all the same: what is behind the cut is followed from the schema to which the field in front
of it leads.  Main statements: `fieldAt_append`, `fieldAt_rounds` (a path that leads back to where it begins can be gone
round any number of times), and from these `fieldAt_in_parts`.
-/
namespace ListQuery.Registry

variable {r : Registry} {path behind : List String}

def fieldBehind (r : Registry) (behind : List String) : Option Field → Except Fault (Option Field)
  | none => .ok none
  | some g => if g.isObject then r.fieldAt g.type behind else .ok none

/-- **A path may be cut anywhere**, whatever its fields have for types. -/
theorem fieldAt_append (hbehind : behind ≠ []) : ∀ {path : List String} (schema : Value), path ≠ [] →
    r.fieldAt schema (path ++ behind) = r.fieldAt schema path >>= r.fieldBehind behind
  | [], _, hpath => absurd rfl hpath
  | [name], schema, _ => by
    obtain ⟨next, rest, rfl⟩ := List.exists_cons_of_ne_nil hbehind
    rw [List.singleton_append, fieldAt_cons_cons, fieldAt_singleton]
    rfl
  | name :: next :: path, schema, _ => by
    have ih := fun g : Field => fieldAt_append hbehind g.type (List.cons_ne_nil next path)
    rw [List.cons_append, List.cons_append, fieldAt_cons_cons, fieldAt_cons_cons]
    cases r.field? schema name with
    | error => rfl
    | ok found =>
      cases found with
      | none => rfl
      | some g =>
        rw [ok_bind, ok_bind]
        by_cases ho : g.isObject = true
        · simp only [if_pos ho, ← ih, List.cons_append]
        · simp only [if_neg ho, ok_bind, fieldBehind]

theorem fieldAt_append_of_object {schema : Value} {f : Field} (hpath : r.fieldAt schema path = .ok (some f))
    (ho : f.isObject = true) (hbehind : behind ≠ []) : r.fieldAt schema (path ++ behind) = r.fieldAt f.type behind := by
  have hne : path ≠ [] := by
    rintro rfl
    cases hpath
  rw [fieldAt_append hbehind schema hne, hpath, ok_bind]
  exact if_pos ho

/-- **A path that leads back to the schema where it begins** can be gone round any number of times. -/
theorem fieldAt_rounds {f : Field} (hpath : r.fieldAt f.type path = .ok (some f)) (ho : f.isObject = true)
    (hbehind : behind ≠ []) : ∀ rounds : Nat,
      r.fieldAt f.type ((List.replicate rounds path).flatten ++ behind) = r.fieldAt f.type behind
  | 0 => by simp
  | rounds + 1 => by
    have hne : (List.replicate rounds path).flatten ++ behind ≠ [] := by simp [hbehind]
    rw [List.replicate_succ, List.flatten_cons, List.append_assoc, fieldAt_append_of_object hpath ho hne,
      fieldAt_rounds hpath ho hbehind rounds]

theorem name_of_fieldAt {schema : Value} {f : Field} (h : r.fieldAt schema path = .ok (some f)) (hpath : path ≠ []) :
    f.name = .str (path.getLast hpath) := by
  obtain ⟨via, hroute⟩ := exists_route path h
  induction hroute with
  | last hf => exact (of_field? hf).2
  | step _ _ hr ih => rw [List.getLast_cons hr.path_ne_nil, ih hr.fieldAt hr.path_ne_nil]

theorem fieldAt_append_singleton {schema : Value} {f : Field} (hpath : r.fieldAt schema path = .ok (some f))
    (ho : f.isObject = true) {t : String} (ht : f.type = .str t) {m : Model} (hm : r.models.get? (.str t) = some m)
    (name : String) : r.fieldAt schema (path ++ [name]) = .ok (m.field? name) := by
  have hfind : r.find? (.str t) = some m := by rw [find?, hm, Option.some_or]
  rw [fieldAt_append_of_object hpath ho (List.cons_ne_nil _ _), ht, fieldAt_singleton, field?_str, hfind, Option.bind_some]

/-- **What a path comes to, told by a part of it.**  It goes on where its first part leads to an object field, from the
schema that is the type of this field, and else it leads to nothing. -/
structure InParts (r : Registry) (schema : String) (path behind : List String) (hpath : path ≠ []) : Prop where
  resolves : ∃ found, r.fieldAt (.str schema) path = .ok found
  goes_on : ∀ f, r.fieldAt (.str schema) path = .ok (some f) → f.isObject = true →
    ∃ t : String, f.type = .str t ∧ r.fieldAt (.str schema) (path ++ behind) = r.fieldAt (.str t) behind
  ends : (∀ f, r.fieldAt (.str schema) path = .ok (some f) → f.isObject = false) →
    r.fieldAt (.str schema) (path ++ behind) = .ok none
  last_name : ∀ f, r.fieldAt (.str schema) path = .ok (some f) → f.name = .str (path.getLast hpath)
  rounds : ∀ f, r.fieldAt (.str schema) path = .ok (some f) → f.isObject = true → f.type = .str schema → ∀ rounds : Nat,
    r.fieldAt (.str schema) ((List.replicate rounds path).flatten ++ behind) = r.fieldAt (.str schema) behind
  shadowed : ∀ f t m, r.fieldAt (.str schema) path = .ok (some f) → f.isObject = true → f.type = .str t →
    r.models.get? (.str t) = some m → ∀ name, r.fieldAt (.str schema) (path ++ [name]) = .ok (m.field? name)

/-- **A path may be followed in parts**, of any length and through whatever schemas it goes. -/
theorem fieldAt_in_parts (typed : r.hasTextTypes = true) (schema : String) (hpath : path ≠ []) (hbehind : behind ≠ []) :
    r.InParts schema path behind hpath := by
  obtain ⟨found, hfound⟩ := exists_fieldAt_eq_ok typed path schema
  constructor
  case resolves => exact ⟨found, hfound⟩
  case goes_on =>
    intro f hf ho
    obtain ⟨via, hroute⟩ := exists_route path hf
    obtain ⟨t, ht⟩ := hroute.text_type typed
    exact ⟨t, ht, ht ▸ fieldAt_append_of_object hf ho hbehind⟩
  case ends =>
    intro hends
    rw [fieldAt_append hbehind _ hpath, hfound, ok_bind]
    cases found with
    | none => rfl
    | some f => simp [fieldBehind, hends f hfound]
  case last_name => exact fun f hf => name_of_fieldAt hf hpath
  case rounds =>
    intro f hf ho ht
    rw [← ht] at hf ⊢
    exact fieldAt_rounds hf ho hbehind
  case shadowed => exact fun f t m hf ho ht hm name => fieldAt_append_singleton hf ho ht hm name

/-- Trees lead back to trees, and a place is looked up in the model of that name, which hides the composite. -/
def clearing : Registry where
  models := [(.str "Tree", ⟨.str "Tree",
      [⟨.str "parent", .object (.str "Tree") (some (.str "Ancestry")), false⟩,
        ⟨.str "place", .object (.str "Place") none, false⟩], false⟩),
    (.str "Place", ⟨.str "Place", [⟨.str "label", .scalar (.str "String"), false⟩], false⟩)]
  composites := [(.str "Place", ⟨.str "Place", [⟨.str "name", .scalar (.str "String"), false⟩], true⟩)]
  enums := []

/-- Three times round the trees, the label of a place is found; the name of a place is not, which only the composite has. -/
theorem fieldAt_in_parts_clearing :
    clearing.hasTextTypes = true ∧
      clearing.fieldAt (.str "Tree") ["parent", "parent", "parent", "place", "label"] =
        .ok (some ⟨.str "label", .scalar (.str "String"), false⟩) ∧
      clearing.fieldAt (.str "Tree") ["place", "name"] = .ok none := by
  have typed : clearing.hasTextTypes = true := rfl
  have hround := fieldAt_in_parts typed "Tree" (List.cons_ne_nil "parent" []) (List.cons_ne_nil "place" ["label"])
  have hplace := fieldAt_in_parts typed "Tree" (List.cons_ne_nil "place" []) (List.cons_ne_nil "name" [])
  exact ⟨typed, (hround.rounds _ rfl rfl rfl 3).trans rfl, (hplace.shadowed _ _ _ rfl rfl rfl rfl "name").trans rfl⟩

end ListQuery.Registry
