import ListQuery.Proofs.DocumentReading
import ListQuery.Proofs.KeyEquality
/-!
# The registry of a schema document

A document is loaded exactly if it has the shape of one, and what is then found under a name is the last entry of that
name as it stands.  The second part needs that values which are one name with a third are one name with each other
(`Value.sameName_trans`), since a table keeps the first of them as the key of them all (`Table.get?_ofEntries`).  Main
statement: `Registry.ofDocument_outcome`.
-/
namespace ListQuery

/-! ## Names -/

namespace Value

variable {u v w : Value}

theorem sameName_iff : v.sameName w = true ↔ (v = .float .nan ∧ w = .float .nan) ∨ v.sameKey w = true := by
  unfold sameName
  split
  · simp
  · rename_i hother
    exact (or_iff_right fun h => hother h.1 h.2).symm

theorem not_sameKey_nan : v.sameKey (.float .nan) ≠ true := by
  intro h
  obtain ⟨k, -, hk⟩ := (sameKey_iff _ _).1 h
  simp [keyForm?, numberForm?, Binary64.numberForm?] at hk

theorem sameName_symm (h : v.sameName w = true) : w.sameName v = true := by
  rw [sameName_iff] at h ⊢
  exact h.imp And.symm sameKey_symm

theorem sameName_trans (huv : u.sameName v = true) (hvw : v.sameName w = true) : u.sameName w = true := by
  rw [sameName_iff] at huv hvw ⊢
  obtain ⟨hu, rfl⟩ | huv := huv
  · obtain ⟨-, hw⟩ | hvw := hvw
    · exact .inl ⟨hu, hw⟩
    · exact absurd (sameKey_symm hvw) not_sameKey_nan
  · obtain ⟨rfl, -⟩ | hvw := hvw
    · exact absurd huv not_sameKey_nan
    · exact .inr (sameKey_trans huv hvw)

end Value

namespace Table

variable {α : Type}

theorem get?_put (name other : Value) (a : α) (t : Table α) :
    (t.put name a).get? other = if name.sameName other then some a else t.get? other := by
  split
  · rename_i h
    -- the name that stays in the table may be a third one, so both tests have to agree on every name
    have hsame : (fun n : Value => n.sameName other) = fun n => n.sameName name := by
      funext n
      exact Bool.eq_iff_iff.2
        ⟨fun hn => Value.sameName_trans hn (Value.sameName_symm h), fun hn => Value.sameName_trans hn h⟩
    have hget : (t.put name a).get? other = (t.put name a).get? name := by
      rw [get?, hsame, get?]
    rw [hget, get?_put_self a t (Value.sameName_trans h (Value.sameName_symm h))]
  · rename_i h
    refine Entries.find?_alter_of_ne _ ?_ (fun n hn => ?_) t
    · exact Bool.eq_false_iff.2 h
    · exact Bool.eq_false_iff.2 fun hother => h (Value.sameName_trans (Value.sameName_symm hn) hother)

theorem get?_ofEntries (name : Value) (entries : List (Value × α)) :
    (ofEntries entries).get? name = (entries.reverse.find? fun e => e.1.sameName name).map Prod.snd := by
  rw [ofEntries, List.foldl_eq_foldr_reverse]
  induction entries.reverse with
  | nil => rfl
  | cons e rest ih =>
    rw [List.foldr_cons, get?_put, List.find?_cons, ih]
    cases e.1.sameName name <;> rfl

end Table

def lastNamed? (name : Value) (raws : List Value) : Option Value :=
  raws.reverse.find? fun raw => (raw.part "name").sameName name

theorem rel_get?_ofEntries {α : Type} {reads : Value → α → Prop} {raws : List Value} {entries : List (Value × α)}
    (h : List.Forall₂ (fun raw e => e.1 = raw.part "name" ∧ reads raw e.2) raws entries) (name : Value) :
    Option.Rel reads (lastNamed? name raws) ((Table.ofEntries entries).get? name) := by
  rw [Table.get?_ofEntries, lastNamed?]
  have hrev := List.forall₂_reverse_iff.2 h
  generalize raws.reverse = raws at hrev
  generalize entries.reverse = entries at hrev
  induction hrev with
  | nil => exact .none
  | cons he _ ih =>
    rw [List.find?_cons, List.find?_cons, he.1]
    split
    · exact .some he.2
    · exact ih

theorem exists_of_rel_some {α β : Type} {rel : α → β → Prop} {a : α} {o : Option β} (h : Option.Rel rel (some a) o) :
    ∃ b, o = some b ∧ rel a b := by
  cases h with
  | some h => exact ⟨_, rfl, h⟩

theorem eq_none_of_rel_none {α β : Type} {rel : α → β → Prop} {o : Option β} (h : Option.Rel rel none o) : o = none := by
  cases h
  rfl

/-! ## Lists of a document -/

open Document

namespace Document

theorem isListOf_and_iff {shape shape' : Value → Prop} {key : String} {entries : List (String × Value)} :
    (IsListOf shape (Value.lookup? key entries) ∧ ∀ raw ∈ (Value.map entries).contentsUnder key, shape' raw) ↔
      IsListOf (fun raw => shape raw ∧ shape' raw) (Value.lookup? key entries) := by
  rw [Value.contentsUnder, Value.under?]
  cases Value.lookup? key entries with
  | none => simp [IsListOf]
  | some v =>
    cases v with
    | list items => simp only [IsListOf, forall₂_and]
    | _ => simp only [IsListOf, false_and]

theorem isListOf_isModel_iff {key : String} {entries : List (String × Value)} :
    IsListOf IsModel (Value.lookup? key entries) ↔
      IsListOf (fun raw => raw.isObject = true ∧ (raw.part "name").isTruthy = true ∧ AreFields (raw.under? "fields"))
          (Value.lookup? key entries) ∧
        ∀ raw ∈ (Value.map entries).contentsUnder key, (raw.part "name").isCompound = false := by
  have hmodel : ∀ raw, IsModel raw ↔
      (raw.isObject = true ∧ (raw.part "name").isTruthy = true ∧ AreFields (raw.under? "fields")) ∧
        (raw.part "name").isCompound = false := fun raw =>
    ⟨fun ⟨object, ⟨given, plain⟩, fields⟩ => ⟨⟨object, given, fields⟩, plain⟩,
      fun ⟨⟨object, given, fields⟩, plain⟩ => ⟨object, ⟨given, plain⟩, fields⟩⟩
  rw [isListOf_and_iff, funext fun raw => propext (hmodel raw)]

end Document

theorem listUnder_loads {α : Type} {f : Value → Except Fault α} {shape : Value → Prop} {reads : Value → α → Prop}
    {entries : List (String × Value)} (json : Value.allJsonEntries entries = true)
    (h : ∀ raw, raw.isJson = true → Loads (f raw) (shape raw) (reads raw)) (key : String) :
    Loads (listUnder key entries >>= fun raws => raws.mapM f) (IsListOf shape (Value.lookup? key entries))
      (List.Forall₂ reads ((Value.map entries).contentsUnder key)) := by
  rw [Value.contentsUnder, Value.under?, listUnder]
  cases hlookup : Value.lookup? key entries with
  | none => exact .ok trivial .nil
  | some v =>
    have hv := Value.isJson_of_lookup? json hlookup
    cases v with
    | list items => exact Loads.mapM fun raw hraw => h raw (Value.isJson_of_mem hv raw hraw)
    | _ => exact .error fun h => h

/-! ## Registries -/

namespace Registry

/-- What the registry of a document tells: under each name the last model of the name, or else the last composite, and the
values of the last enum. -/
structure Reads (d : Value) (r : Registry) : Prop where
  model : ∀ {name raw}, lastNamed? name (d.contentsUnder "models") = some raw →
    ∃ m, r.find? name = some m ∧ m.Reads false raw
  composite : ∀ {name raw}, lastNamed? name (d.contentsUnder "models") = none →
    lastNamed? name (d.contentsUnder "types") = some raw → ∃ m, r.find? name = some m ∧ m.Reads true raw
  unknown : ∀ {name}, lastNamed? name (d.contentsUnder "models") = none →
    lastNamed? name (d.contentsUnder "types") = none → r.find? name = none
  enum : ∀ name : String, r.enumValues? name = (lastNamed? (.str name) (d.contentsUnder "enums")).map fun raw =>
    (raw.contentsUnder "values").map enumValueOf

theorem tableOf_loads {raws : List Value} (json : ∀ raw ∈ raws, raw.isJson = true) {isComposite : Bool}
    {models : List Model} (h : List.Forall₂ (Model.Reads isComposite) raws models) :
    Loads (tableOf models) (∀ raw ∈ raws, (raw.part "name").isCompound = false)
      fun t => ∀ name, Option.Rel (Model.Reads isComposite) (lastNamed? name raws) (t.get? name) := by
  refine (asKeys_loads (fun _ _ hreads => hreads.name) json h).andReturn fun _ _ name => ?_
  refine rel_get?_ofEntries ?_ name
  rw [List.forall₂_map_right_iff]
  exact h.imp fun raw m hm => ⟨hm.name, hm⟩

theorem reads_asComposite {raws : List Value} {composites : List Model}
    (h : List.Forall₂ (Model.Reads true) raws composites) :
    List.Forall₂ (Model.Reads true) raws (composites.map Model.asComposite) := by
  rw [List.forall₂_map_right_iff]
  exact h.imp fun raw m hm => ⟨hm.name, hm.fields, rfl⟩

theorem find?_of_model {r : Registry} {name : Value} {m : Model} (h : r.models.get? name = some m) :
    r.find? name = some m := by
  rw [find?, h, Option.some_or]

theorem find?_of_no_model {r : Registry} {name : Value} (h : r.models.get? name = none) :
    r.find? name = r.composites.get? name := by
  rw [find?, h, Option.none_or]

theorem reads_of_tables {d : Value} {r : Registry}
    (hmodels : ∀ name, Option.Rel (Model.Reads false) (lastNamed? name (d.contentsUnder "models")) (r.models.get? name))
    (hcomposites : ∀ name,
      Option.Rel (Model.Reads true) (lastNamed? name (d.contentsUnder "types")) (r.composites.get? name))
    (henums : ∀ name, Option.Rel (fun raw values => values = (raw.contentsUnder "values").map enumValueOf)
      (lastNamed? name (d.contentsUnder "enums")) (r.enums.get? name)) : Reads d r := by
  constructor
  case model =>
    intro name raw hraw
    obtain ⟨m, hm, hreads⟩ := exists_of_rel_some (hraw ▸ hmodels name)
    exact ⟨m, find?_of_model hm, hreads⟩
  case composite =>
    intro name raw hnone hraw
    obtain ⟨m, hm, hreads⟩ := exists_of_rel_some (hraw ▸ hcomposites name)
    exact ⟨m, (find?_of_no_model (eq_none_of_rel_none (hnone ▸ hmodels name))).trans hm, hreads⟩
  case unknown =>
    intro name hmodel hcomposite
    exact (find?_of_no_model (eq_none_of_rel_none (hmodel ▸ hmodels name))).trans
      (eq_none_of_rel_none (hcomposite ▸ hcomposites name))
  case enum =>
    intro name
    have hrel := henums (.str name)
    rw [enumValues?]
    cases hraw : lastNamed? (.str name) (d.contentsUnder "enums") with
    | none => exact eq_none_of_rel_none (hraw ▸ hrel)
    | some raw =>
      obtain ⟨values, hvalues, rfl⟩ := exists_of_rel_some (hraw ▸ hrel)
      exact hvalues

theorem make_loads {d : Value} (json : d.isJson = true) {models composites : List Model} {enums : List (Value × List Value)}
    (hmodels : List.Forall₂ (Model.Reads false) (d.contentsUnder "models") models)
    (hcomposites : List.Forall₂ (Model.Reads true) (d.contentsUnder "types") composites)
    (henums : List.Forall₂ EnumReads (d.contentsUnder "enums") enums) :
    Loads (Registry.make models composites (.ofEntries enums))
      ((∀ raw ∈ d.contentsUnder "models", (raw.part "name").isCompound = false) ∧
        ∀ raw ∈ d.contentsUnder "types", (raw.part "name").isCompound = false)
      (Reads d) := by
  refine (tableOf_loads (Value.isJson_of_mem_contentsUnder json _) hmodels).andThen fun ms hms => ?_
  refine (tableOf_loads (Value.isJson_of_mem_contentsUnder json _) (reads_asComposite hcomposites)).andReturn
    fun cs hcs => ?_
  exact reads_of_tables hms hcs (rel_get?_ofEntries (henums.imp fun _ _ he => ⟨he.name, he.values⟩))

theorem ofDatamodel_loads {entries : List (String × Value)} (json : (Value.map entries).isJson = true) :
    Loads (do
      let models ← (← listUnder "models" entries).mapM (Model.ofDocument false)
      let composites ← (← listUnder "types" entries).mapM (Model.ofDocument true)
      let enums ← (← listUnder "enums" entries).mapM enumOfDocument
      Registry.make models composites (.ofEntries enums)) (IsDatamodel (.map entries)) (Reads (.map entries)) := by
  have hmodels := listUnder_loads json (fun raw hraw => Model.ofDocument_loads hraw false) "models"
  have hcomposites := listUnder_loads json (fun raw hraw => Model.ofDocument_loads hraw true) "types"
  have henums := listUnder_loads json (fun raw hraw => enumOfDocument_loads hraw) "enums"
  have hloads := hmodels.andThen fun models hms => hcomposites.andThen fun composites hcs =>
    henums.andThen fun enums hes => make_loads json hms hcs hes
  simp only [bind_assoc] at hloads
  refine hloads.congr ?_
  constructor
  · rintro ⟨models, composites, enums, plainModels, plainComposites⟩
    exact ⟨rfl, isListOf_isModel_iff.2 ⟨models, plainModels⟩, isListOf_isModel_iff.2 ⟨composites, plainComposites⟩, enums⟩
  · rintro ⟨-, models, composites, enums⟩
    obtain ⟨models, plainModels⟩ := isListOf_isModel_iff.1 models
    obtain ⟨composites, plainComposites⟩ := isListOf_isModel_iff.1 composites
    exact ⟨models, composites, enums, plainModels, plainComposites⟩

theorem isJson_datamodel {document : Value} (json : document.isJson = true) : (datamodel document).isJson = true := by
  rw [datamodel]
  cases h : document.under? "datamodel" with
  | none => exact json
  | some d => exact Value.isJson_of_under? json h

/-- **A JSON document is loaded exactly if it has the shape of a schema**, and then the registry tells what its entries
say: under each name the last model of the name, or else the last composite, with its fields in order, and the values of
the last enum. -/
theorem ofDocument_outcome {document : Value} (json : document.isJson = true) :
    ((∃ r, ofDocument document = .ok r) ↔ IsSchema document) ∧
      ∀ r, ofDocument document = .ok r → Reads (datamodel document) r := by
  have hloads : Loads (ofDocument document) (IsSchema document) (Reads (datamodel document)) := by
    cases document with
    | map entries =>
      have hjson := isJson_datamodel json
      have hinner := (datamodel (.map entries)).entries_loads.andThen fun inner hinner =>
        hinner ▸ ofDatamodel_loads (hinner ▸ hjson)
      exact hinner.congr ⟨fun h => ⟨rfl, h.2⟩, fun h => ⟨h.datamodel.object, h.datamodel⟩⟩
    | _ => exact .error fun h => nomatch h.object
  exact ⟨hloads.ok_iff, fun _ => hloads.reading_of⟩

def fieldEntry (name type kind : String) (more : List (String × Value)) : Value :=
  .map ([("name", .str name), ("type", .str type), ("kind", .str kind)] ++ more)

/-- A model with a scalar, a list of trees, and an embedded spot, for an empty relation name is none. -/
def treeEntry : Value :=
  .map [("name", .str "Tree"), ("fields", .list [fieldEntry "age" "Int" "Scalar" [],
    fieldEntry "children" "Tree" "OBJECT" [("relationName", .str "TreeToTree"), ("isList", .int 1)],
    fieldEntry "place" "Spot" "object" [("relationName", .str "")]])]

def spotEntry : Value := .map [("name", .str "Spot"), ("fields", .str "")]

/-- A document in which trees are given three times: by two models, of which the second counts, and by a composite. -/
def grove : Value :=
  .map [("datamodel", .map [
    ("models", .list [.map [("name", .str "Tree"), ("fields", .list [])], treeEntry]),
    ("types", .list [.map [("name", .str "Tree")], spotEntry]),
    ("enums", .list [.map [("name", .str "Season"),
      ("values", .list [.str "SPRING", .int 3, .map [("name", .str "FALL")]])]])])]

theorem ofDocument_outcome_grove :
    grove.isJson = true ∧ IsSchema grove ∧ ∃ r, ofDocument grove = .ok r ∧
      (∃ m, r.find? (.str "Tree") = some m ∧ m.Reads false treeEntry) ∧
      (∃ m, r.find? (.str "Spot") = some m ∧ m.Reads true spotEntry) ∧ r.find? (.str "Bush") = none ∧
      r.enumValues? "Season" = some [.str "SPRING", .str "3", .str "FALL"] := by
  have json : grove.isJson = true := by decide
  obtain ⟨hloads, hreads⟩ := ofDocument_outcome json
  obtain ⟨r, hr⟩ := exists_eq_ok_of_isOk (show (ofDocument grove).isOk = true by decide +kernel)
  have h := hreads r hr
  exact ⟨json, hloads.1 ⟨r, hr⟩, r, hr, h.model rfl, h.composite rfl rfl, h.unknown rfl rfl, h.enum "Season"⟩

end Registry
end ListQuery
