import ListQuery.Proofs.DocumentShape
import ListQuery.Proofs.Success
/-!
# Reading the entries of a schema document

An entry is checked bit by bit while it is read, and some of its values only when they become keys.  `Loads` says of a
call both when it gives a result and what that is, and calls that load one after the other load what each of them asks
for (`Loads.andThen`, `Loads.mapM`).  Main statements: `Model.ofDocument_loads` and `enumOfDocument_loads`.
-/
namespace ListQuery

/-- A call gives a result exactly if a value has the shape, and then one that is a reading of the value. -/
structure Loads {α : Type} (x : Except Fault α) (shape : Prop) (reading : α → Prop) : Prop where
  ok_iff : (∃ a, x = .ok a) ↔ shape
  reading_of : ∀ {a}, x = .ok a → reading a

namespace Loads

variable {α β : Type} {x : Except Fault α} {f : α → Except Fault β} {shape shape' : Prop} {reading : α → Prop}

theorem ok {a : α} (hshape : shape) (h : reading a) : Loads (.ok a) shape reading :=
  ⟨⟨fun _ => hshape, fun _ => ⟨a, rfl⟩⟩, fun ha => Except.ok.inj ha ▸ h⟩

theorem error {fault : Fault} (hshape : ¬shape) : Loads (.error fault) shape reading :=
  ⟨⟨fun ⟨_, h⟩ => (nomatch h), fun h => absurd h hshape⟩, fun h => (nomatch h)⟩

theorem congr (h : Loads x shape reading) (hshape : shape ↔ shape') : Loads x shape' reading :=
  ⟨h.ok_iff.trans hshape, h.reading_of⟩

theorem imp {reading' : α → Prop} (h : Loads x shape reading) (himp : ∀ a, reading a → reading' a) :
    Loads x shape reading' :=
  ⟨h.ok_iff, fun ha => himp _ (h.reading_of ha)⟩

theorem bind {shape : α → Prop} {reading : β → Prop} (h : ∀ a, x = .ok a → Loads (f a) (shape a) reading) :
    Loads (x >>= f) (∃ a, x = .ok a ∧ shape a) reading := by
  constructor
  · simp only [bind_eq_ok_iff]
    constructor
    · rintro ⟨b, a, ha, hb⟩
      exact ⟨a, ha, (h a ha).ok_iff.1 ⟨b, hb⟩⟩
    · rintro ⟨a, ha, hshape⟩
      obtain ⟨b, hb⟩ := (h a ha).ok_iff.2 hshape
      exact ⟨b, a, ha, hb⟩
  · intro b hb
    obtain ⟨a, ha, hb⟩ := bind_eq_ok_iff.1 hb
    exact (h a ha).reading_of hb

theorem guard {p : Prop} [Decidable p] {fault : Fault} (h : p → Loads x shape reading) :
    Loads (if p then x else .error fault) (p ∧ shape) reading := by
  split
  · rename_i hp
    exact (h hp).congr (and_iff_right hp).symm
  · rename_i hp
    exact error fun hshape => hp hshape.1

theorem andThen {reading' : β → Prop} (hx : Loads x shape reading) (h : ∀ a, reading a → Loads (f a) shape' reading') :
    Loads (x >>= f) (shape ∧ shape') reading' :=
  (bind fun a ha => h a (hx.reading_of ha)).congr (by simp only [exists_and_right, hx.ok_iff])

theorem andReturn {g : α → β} {reading' : β → Prop} (hx : Loads x shape reading)
    (h : ∀ a, reading a → reading' (g a)) : Loads (x >>= fun a => .ok (g a)) shape reading' :=
  (hx.andThen fun a ha => ok trivial (h a ha)).congr (iff_of_eq (and_true shape))

theorem mapM {shape : α → Prop} {reading : α → β → Prop} : ∀ {vs : List α},
    (∀ v ∈ vs, Loads (f v) (shape v) (reading v)) → Loads (vs.mapM f) (∀ v ∈ vs, shape v) (List.Forall₂ reading vs)
  | [], _ => ok (fun _ hv => nomatch hv) .nil
  | v :: vs, h => by
    have hv := h v List.mem_cons_self
    have hvs := mapM fun w hw => h w (List.mem_cons_of_mem v hw)
    rw [List.mapM_cons]
    exact (hv.andThen fun a ha => hvs.andReturn fun as has => .cons ha has).congr List.forall_mem_cons.symm

theorem asKey (v : Value) : Loads v.asKey (v.isHashable = true) fun _ => True := by
  unfold Value.asKey
  split
  · rename_i h; exact ok h trivial
  · rename_i h; exact error h

theorem asKeys (key : α → Value) : ∀ as : List α,
    Loads (as.forM fun a => (key a).asKey) (∀ a ∈ as, (key a).isHashable = true) fun _ => True
  | [] => ok (fun _ ha => nomatch ha) trivial
  | a :: as => by
    have has := (asKey (key a)).andThen fun _ _ => asKeys key as
    exact has.congr (List.forall_mem_cons (p := fun a => (key a).isHashable = true)).symm

end Loads

/-! ## Parts -/

theorem Value.entries_loads : ∀ raw : Value, Loads raw.entries (raw.isObject = true) fun entries => raw = .map entries
  | .map _ => .ok rfl rfl
  | .null | .bool _ | .int _ | .float _ | .str _ | .bytes _ | .time _ | .badTime _ | .span _ | .list _ | .tuple _ | .set _
  | .record .. => .error Bool.false_ne_true

section

variable {key : String} {entries : List (String × Value)}

theorem contentsUnder_of_contentsOf (json : Value.allJsonEntries entries = true) {items : List Value}
    (h : contentsOf key entries = .ok items) : (Value.map entries).contentsUnder key = items := by
  unfold contentsOf at h
  rw [Value.contentsUnder, Value.under?]
  cases hlookup : Value.lookup? key entries with
  | none =>
    rw [hlookup] at h
    exact Except.ok.inj h
  | some v =>
    have hv := Value.isJson_of_lookup? json hlookup
    rw [hlookup] at h
    cases v with
    | list | str | map => exact Except.ok.inj h
    | tuple | set => cases hv
    | _ => cases h

theorem forall_contentsOf_iff (json : Value.allJsonEntries entries = true) {shape : Value → Prop} :
    (∃ items, contentsOf key entries = .ok items ∧ ∀ v ∈ items, shape v) ↔
      match Value.lookup? key entries with
      | none => True
      | some (.list items) => ∀ v ∈ items, shape v
      | some (.str text) => ∀ c ∈ text.toList, shape (.str (String.singleton c))
      | some (.map parts) => ∀ e ∈ parts, shape (.str e.1)
      | some _ => False := by
  unfold contentsOf
  cases hlookup : Value.lookup? key entries with
  | none => simp
  | some v =>
    have hv := Value.isJson_of_lookup? json hlookup
    cases v with
    | list | str | map => simp only [Value.contents, Except.ok.injEq, exists_eq_left', List.forall_mem_map]
    | tuple | set => cases hv
    | _ => simp only [Value.contents, reduceCtorEq, false_and, exists_false]

end

/-! ## Fields and models -/

open Document

structure Field.Reads (raw : Value) (f : Field) : Prop where
  name : f.name = raw.part "name"
  kind : Kind.Reads (raw.part "type") (raw.part "relationName") (raw.part "kind").display.toLower f.kind
  isList : f.isList = (raw.part "isList").isTruthy

theorem Field.ofDocument_loads {raw : Value} (json : raw.isJson = true) (model : Value) :
    Loads (Field.ofDocument model raw)
      (raw.isObject = true ∧ ((raw.part "name").isTruthy = true ∧ (raw.part "type").isTruthy = true) ∧
        (raw.part "kind").display.toLower ∈ Kind.words)
      (Field.Reads raw) := by
  refine raw.entries_loads.andThen fun entries hraw => ?_
  subst hraw
  rw [← Bool.and_eq_true]
  refine Loads.guard fun _ => ?_
  have htag : ∀ {kind}, Kind.ofTag? (entryOrNull "kind" entries) _ _ = some kind ↔ _ :=
    Kind.ofTag?_eq_some_iff (Value.isJson_part json "kind") (entryOrNull "type" entries) (entryOrNull "relationName" entries)
  dsimp only
  split
  · rename_i kind hkind
    have hreads := htag.1 hkind
    exact .ok (Kind.exists_reads_iff.1 ⟨kind, hreads⟩) ⟨rfl, hreads, rfl⟩
  · rename_i hnone
    refine .error fun hword => ?_
    obtain ⟨kind, hreads⟩ := Kind.exists_reads_iff.2 hword
    cases hnone.symm.trans (htag.2 hreads)

structure Model.Reads (isComposite : Bool) (raw : Value) (m : Model) : Prop where
  name : m.name = raw.part "name"
  fields : List.Forall₂ Field.Reads (raw.contentsUnder "fields") m.fields
  isComposite : m.isComposite = isComposite

theorem asKeys_loads {α : Type} {key : α → Value} {reads : Value → α → Prop}
    (hname : ∀ raw a, reads raw a → key a = raw.part "name") {raws : List Value}
    (json : ∀ raw ∈ raws, raw.isJson = true) {as : List α} (h : List.Forall₂ reads raws as) :
    Loads (as.forM fun a => (key a).asKey) (∀ raw ∈ raws, (raw.part "name").isCompound = false) fun _ => True := by
  refine (Loads.asKeys key as).congr ?_
  induction h with
  | nil => exact iff_of_true (fun _ h => nomatch h) fun _ h => nomatch h
  | cons hra _ ih =>
    rw [List.forall_mem_cons] at json
    rw [List.forall_mem_cons, List.forall_mem_cons, ih json.2, hname _ _ hra,
      Value.isHashable_eq (Value.isJson_part json.1 _), Bool.not_eq_true']

theorem Model.make_loads {raws : List Value} (json : ∀ raw ∈ raws, raw.isJson = true) {fields : List Field}
    (h : List.Forall₂ Field.Reads raws fields) (name : Value) (isComposite : Bool) :
    Loads (Model.make name fields isComposite) (∀ raw ∈ raws, (raw.part "name").isCompound = false)
      fun m => m.name = name ∧ List.Forall₂ Field.Reads raws m.fields ∧ m.isComposite = isComposite :=
  (asKeys_loads (fun _ _ hreads => hreads.name) json h).andReturn fun _ _ => ⟨rfl, h, rfl⟩

/-- All fields of a model are read before the first of their names becomes a key. -/
theorem Model.ofFields_loads {raws : List Value} (json : ∀ raw ∈ raws, raw.isJson = true) (name : Value)
    (isComposite : Bool) :
    Loads (raws.mapM (Field.ofDocument name) >>= fun fields => Model.make name fields isComposite)
      (∀ raw ∈ raws, IsField raw)
      fun m => m.name = name ∧ List.Forall₂ Field.Reads raws m.fields ∧ m.isComposite = isComposite := by
  have hfields := Loads.mapM fun raw hraw => Field.ofDocument_loads (json raw hraw) name
  refine (hfields.andThen fun fields hreads => Model.make_loads json hreads name isComposite).congr ?_
  rw [← forall₂_and]
  refine forall₂_congr fun raw _ => ⟨?_, ?_⟩
  · rintro ⟨⟨object, ⟨given, type⟩, kind⟩, plain⟩
    exact ⟨object, ⟨given, plain⟩, type, kind⟩
  · rintro ⟨object, ⟨given, plain⟩, type, kind⟩
    exact ⟨⟨object, ⟨given, type⟩, kind⟩, plain⟩

theorem Document.areFields_iff {entries : List (String × Value)} (json : Value.allJsonEntries entries = true) :
    (∃ items, contentsOf "fields" entries = .ok items ∧ ∀ raw ∈ items, IsField raw) ↔
      AreFields (Value.lookup? "fields" entries) := by
  have hno : ∀ s, ¬IsField (.str s) := fun s h => nomatch h.object
  rw [forall_contentsOf_iff json]
  cases Value.lookup? "fields" entries with
  | none => exact Iff.rfl
  | some v =>
    cases v with
    | str text => simp only [hno, imp_false, ← List.eq_nil_iff_forall_not_mem, String.toList_eq_nil_iff, AreFields]
    | map parts => simp only [hno, imp_false, ← List.eq_nil_iff_forall_not_mem, AreFields]
    | _ => exact Iff.rfl

/-- A model is read if its entry has a name and its fields are read.  Whether the name can be a key is not asked yet. -/
theorem Model.ofDocument_loads {raw : Value} (json : raw.isJson = true) (isComposite : Bool) :
    Loads (Model.ofDocument isComposite raw)
      (raw.isObject = true ∧ (raw.part "name").isTruthy = true ∧ AreFields (raw.under? "fields"))
      (Model.Reads isComposite raw) := by
  refine raw.entries_loads.andThen fun entries hraw => ?_
  subst hraw
  refine Loads.guard fun _ => ?_
  refine Loads.congr (Loads.bind fun items hitems => ?_) (areFields_iff json)
  obtain rfl := contentsUnder_of_contentsOf json hitems
  refine (Model.ofFields_loads (Value.isJson_of_mem_contentsUnder json "fields") _ isComposite).imp fun m hm => ?_
  obtain ⟨hname, hfields, hcomposite⟩ := hm
  exact ⟨hname, hfields, hcomposite⟩

/-! ## Enums -/

/-- A value of an enum: the name of an object, and the text of anything else. -/
def enumValueOf (raw : Value) : Value := if raw.isObject then raw.part "name" else .str raw.display

structure EnumReads (raw : Value) (e : Value × List Value) : Prop where
  name : e.1 = raw.part "name"
  values : e.2 = (raw.contentsUnder "values").map enumValueOf

theorem enumValue_loads (raw : Value) : Loads (enumValue raw) (IsEnumValue raw) (· = enumValueOf raw) := by
  cases raw with
  | map entries =>
    rw [enumValue]
    split
    · rename_i name hname
      refine .ok (fun _ => ?_) ?_
      · rw [Value.under?, hname]; rfl
      · rw [enumValueOf, if_pos (show (Value.map entries).isObject = true from rfl), Value.part, Value.under?, hname]; rfl
    · rename_i hnone
      refine .error fun h => ?_
      have hsome := h rfl
      rw [Value.under?, hnone] at hsome
      cases hsome
  | _ => exact .ok (fun h => absurd h Bool.false_ne_true) rfl

theorem Document.areValues_iff {entries : List (String × Value)} (json : Value.allJsonEntries entries = true) :
    (∃ items, contentsOf "values" entries = .ok items ∧ ∀ raw ∈ items, IsEnumValue raw) ↔
      AreValues (Value.lookup? "values" entries) := by
  have hall : ∀ s, IsEnumValue (.str s) := fun s h => nomatch h
  rw [forall_contentsOf_iff json]
  cases Value.lookup? "values" entries with
  | none => exact Iff.rfl
  | some v =>
    cases v with
    | str | map => simp only [hall, implies_true, AreValues]
    | _ => exact Iff.rfl

theorem enumOfValues_loads {name : Value} (json : name.isJson = true) (items : List Value) :
    Loads (items.mapM enumValue >>= fun values => name.asKey >>= fun _ => .ok (name, values))
      ((∀ v ∈ items, IsEnumValue v) ∧ name.isCompound = false) (· = (name, items.map enumValueOf)) := by
  refine (Loads.mapM fun v _ => enumValue_loads v).andThen fun values hreads => ?_
  have hvalues : values = items.map enumValueOf := by
    induction hreads with
    | nil => rfl
    | cons hv _ ih => rw [List.map_cons, hv, ih]
  refine ((Loads.asKey name).andReturn fun _ _ => by rw [hvalues]).congr ?_
  rw [Value.isHashable_eq json, Bool.not_eq_true']

theorem Document.isEnum_iff {raw : Value} : IsEnum raw ↔ raw.isObject = true ∧ (raw.part "name").isTruthy = true ∧
    AreValues (raw.under? "values") ∧ (raw.part "name").isCompound = false :=
  ⟨fun ⟨object, ⟨given, plain⟩, values⟩ => ⟨object, given, values, plain⟩,
    fun ⟨object, given, values, plain⟩ => ⟨object, ⟨given, plain⟩, values⟩⟩

theorem enumOfDocument_loads {raw : Value} (json : raw.isJson = true) :
    Loads (enumOfDocument raw) (IsEnum raw) (EnumReads raw) := by
  refine (raw.entries_loads.andThen fun entries hraw => ?_).congr isEnum_iff.symm
  subst hraw
  have hname := Value.isJson_part json "name"
  have hreads : ∀ items, contentsOf "values" entries = .ok items →
      ∀ e, e = ((Value.map entries).part "name", items.map enumValueOf) → EnumReads (.map entries) e := by
    rintro items hitems _ rfl
    exact ⟨rfl, by rw [contentsUnder_of_contentsOf json hitems]⟩
  have hvalues := Loads.bind fun items hitems => (enumOfValues_loads hname items).imp (hreads items hitems)
  refine Loads.guard fun _ => hvalues.congr ?_
  simp only [← and_assoc, exists_and_right]
  exact and_congr_left' (areValues_iff json)

end ListQuery
