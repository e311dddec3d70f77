import ListQuery.Proofs.FirstFault
import ListQuery.Proofs.LoadedRegistry
/-!
# Why a schema document is refused

The checks of a document place by place, in the order in which they are made.  Some places are checked with an error of
their own, and the others only when their value is used, which ends in a fault that says nothing about the document
(`strayFaults`).  Main statements: `faultOf?_ofDocument` (the fault of a document is that of the first check that it does
not pass) and `ofDocument_fault`.
-/
namespace ListQuery

/-! ## The checks -/

def Value.holdsContents (key : String) (raw : Value) : Bool :=
  match raw.under? key with
  | none | some (.list _) | some (.str _) | some (.map _) => true
  | some _ => false

def Value.holdsList (key : String) (raw : Value) : Bool :=
  match raw.under? key with
  | none | some (.list _) => true
  | some _ => false

namespace Document

def nameFault? (raw : Value) : Option Fault := faultUnless (!(raw.part "name").isCompound) (.unfit .key)

def fieldFault? (model raw : Value) : Option Fault :=
  firstFault
    [faultUnless raw.isObject (.unfit .object),
      faultUnless ((raw.part "name").isTruthy && (raw.part "type").isTruthy)
        (.query (.definition (.incompleteField model raw))),
      faultUnless (decide ((raw.part "kind").display.toLower ∈ Kind.words))
        (.query (.definition (.unsupportedKind (raw.part "kind") model (raw.part "name"))))]

/-- All fields of a model are read before the first of their names is made a key. -/
def modelFault? (raw : Value) : Option Fault :=
  firstFault
    [faultUnless raw.isObject (.unfit .object),
      faultUnless (raw.part "name").isTruthy (.query (.definition (.unnamedModel raw))),
      faultUnless (raw.holdsContents "fields") (.unfit .collection),
      (raw.contentsUnder "fields").findSome? (fieldFault? (raw.part "name")),
      (raw.contentsUnder "fields").findSome? nameFault?]

def enumValueFault? (raw : Value) : Option Fault :=
  faultUnless (!raw.isObject || (raw.under? "name").isSome) (.missingKey "name")

def enumFault? (raw : Value) : Option Fault :=
  firstFault
    [faultUnless raw.isObject (.unfit .object),
      faultUnless (raw.part "name").isTruthy (.query (.definition (.unnamedEnum raw))),
      faultUnless (raw.holdsContents "values") (.unfit .collection),
      (raw.contentsUnder "values").findSome? enumValueFault?,
      nameFault? raw]

def listFault? (key : String) (entryFault? : Value → Option Fault) (d : Value) : Option Fault :=
  firstFault
    [faultUnless (d.holdsList key) (.query (.definition (.notAList key))), (d.contentsUnder key).findSome? entryFault?]

/-- The names of models and composites are made keys when everything has been read. -/
def datamodelFault? (d : Value) : Option Fault :=
  firstFault
    [faultUnless d.isObject (.unfit .object),
      listFault? "models" modelFault? d, listFault? "types" modelFault? d, listFault? "enums" enumFault? d,
      (d.contentsUnder "models").findSome? nameFault?, (d.contentsUnder "types").findSome? nameFault?]

def fault? (document : Value) : Option Fault :=
  firstFault [faultUnless document.isObject (.query (.definition .notAnObject)), datamodelFault? (datamodel document)]

/-- The faults of values that are used without a check. -/
def strayFaults : List Fault := [.unfit .object, .unfit .collection, .unfit .key, .missingKey "name"]

end Document

/-! ## Reading -/

open Document

section

variable {key : String} {entries : List (String × Value)}

theorem faultOf?_entries (raw : Value) : faultOf? raw.entries = faultUnless raw.isObject (.unfit .object) := by
  cases raw <;> rfl

theorem eq_map_of_entries {raw : Value} {entries : List (String × Value)} (h : raw.entries = .ok entries) :
    raw = .map entries :=
  raw.entries_loads.reading_of h

theorem faultOf?_contentsOf (json : Value.allJsonEntries entries = true) :
    faultOf? (contentsOf key entries) = faultUnless ((Value.map entries).holdsContents key) (.unfit .collection) := by
  rw [contentsOf, Value.holdsContents, Value.under?]
  cases hlookup : Value.lookup? key entries with
  | none => rfl
  | some v =>
    have hv := Value.isJson_of_lookup? json hlookup
    cases v with
    | tuple | set => cases hv
    | _ => rfl

theorem faultOf?_asKey {name : Value} (json : name.isJson = true) :
    faultOf? name.asKey = faultUnless (!name.isCompound) (.unfit .key) := by
  rw [Value.asKey, Value.isHashable_eq json]
  cases name.isCompound <;> rfl

theorem faultOf?_asKeys {α : Type} {keyOf : α → Value} {reads : Value → α → Prop}
    (hname : ∀ raw a, reads raw a → keyOf a = raw.part "name") {raws : List Value}
    (json : ∀ raw ∈ raws, raw.isJson = true) {as : List α} (h : List.Forall₂ reads raws as) :
    faultOf? (as.forM fun a => (keyOf a).asKey) = raws.findSome? nameFault? := by
  rw [faultOf?_forM]
  symm
  refine findSome?_congr ?_
  induction h with
  | nil => exact .nil
  | cons hra _ ih =>
    rw [List.forall_mem_cons] at json
    refine .cons ?_ (ih json.2)
    rw [hname _ _ hra, faultOf?_asKey (Value.isJson_part json.1 "name"), nameFault?]

end

theorem Kind.isSome_ofTag? {tag : Value} (json : tag.isJson = true) (type relation : Value) :
    (ofTag? tag type relation).isSome = decide (tag.display.toLower ∈ words) := by
  rw [Bool.eq_iff_iff, decide_eq_true_iff, Option.isSome_iff_exists, ← exists_reads_iff]
  exact exists_congr fun kind => ofTag?_eq_some_iff json type relation

theorem Field.faultOf?_ofDocument {raw : Value} (json : raw.isJson = true) (model : Value) :
    faultOf? (Field.ofDocument model raw) = fieldFault? model raw := by
  rw [fieldFault?, firstFault_cons]
  refine faultOf?_bind (faultOf?_entries raw) fun entries hentries => ?_
  obtain rfl := eq_map_of_entries hentries
  rw [firstFault_cons, firstFault_singleton]
  refine faultOf?_guard fun _ => ?_
  have hknown := Kind.isSome_ofTag? (Value.isJson_part json "kind") (entryOrNull "type" entries)
    (entryOrNull "relationName" entries)
  have htag : entryOrNull "kind" entries = (Value.map entries).part "kind" := rfl
  rw [← hknown]
  dsimp only
  rw [htag]
  cases Kind.ofTag? ((Value.map entries).part "kind") (entryOrNull "type" entries) (entryOrNull "relationName" entries)
    <;> rfl

theorem Model.faultOf?_ofDocument {raw : Value} (json : raw.isJson = true) (isComposite : Bool) :
    faultOf? (Model.ofDocument isComposite raw) = modelFault? raw := by
  rw [modelFault?, firstFault_cons]
  refine faultOf?_bind (faultOf?_entries raw) fun entries hentries => ?_
  obtain rfl := eq_map_of_entries hentries
  rw [firstFault_cons]
  refine faultOf?_guard fun _ => ?_
  rw [firstFault_cons]
  refine faultOf?_bind (faultOf?_contentsOf json) fun items hitems => ?_
  obtain rfl := contentsUnder_of_contentsOf json hitems
  have hjson := Value.isJson_of_mem_contentsUnder json "fields"
  rw [firstFault_cons, firstFault_singleton]
  refine faultOf?_bind ?_ fun fields hfields => ?_
  · rw [faultOf?_mapM]
    exact findSome?_congr (List.forall₂_same.2 fun field hfield => Field.faultOf?_ofDocument (hjson field hfield) _)
  · have hreads : List.Forall₂ Field.Reads ((Value.map entries).contentsUnder "fields") fields := by
      refine (Loads.mapM fun field hfield => Field.ofDocument_loads (hjson field hfield) _).reading_of hfields
    rw [Model.make, pure_eq_ok, faultOf?_bind_ok]
    exact faultOf?_asKeys (fun _ _ hfield => hfield.name) hjson hreads

theorem faultOf?_enumValue (raw : Value) : faultOf? (enumValue raw) = enumValueFault? raw := by
  cases raw with
  | map entries =>
    rw [enumValueFault?, Value.under?, enumValue]
    cases Value.lookup? "name" entries <;> rfl
  | _ => rfl

theorem faultOf?_enumOfDocument {raw : Value} (json : raw.isJson = true) :
    faultOf? (enumOfDocument raw) = enumFault? raw := by
  rw [enumFault?, firstFault_cons]
  refine faultOf?_bind (faultOf?_entries raw) fun entries hentries => ?_
  obtain rfl := eq_map_of_entries hentries
  rw [firstFault_cons]
  refine faultOf?_guard fun _ => ?_
  rw [firstFault_cons]
  refine faultOf?_bind (faultOf?_contentsOf json) fun items hitems => ?_
  obtain rfl := contentsUnder_of_contentsOf json hitems
  rw [firstFault_cons, firstFault_singleton]
  refine faultOf?_bind ?_ fun values _ => ?_
  · rw [faultOf?_mapM]
    exact findSome?_congr (List.forall₂_same.2 fun value _ => faultOf?_enumValue value)
  · rw [pure_eq_ok, faultOf?_bind_ok, nameFault?]
    exact faultOf?_asKey (Value.isJson_part json "name")

/-! ## Documents -/

theorem faultOf?_listUnder {α : Type} {f : Value → Except Fault α} {entryFault? : Value → Option Fault}
    {entries : List (String × Value)} (json : Value.allJsonEntries entries = true)
    (h : ∀ raw, raw.isJson = true → faultOf? (f raw) = entryFault? raw) (key : String) :
    faultOf? (listUnder key entries >>= fun raws => raws.mapM f) = listFault? key entryFault? (.map entries) := by
  rw [listFault?, firstFault_cons, firstFault_singleton, listUnder, Value.holdsList, Value.contentsUnder, Value.under?]
  cases hlookup : Value.lookup? key entries with
  | none => rfl
  | some v =>
    have hv := Value.isJson_of_lookup? json hlookup
    cases v with
    | list items =>
      rw [ok_bind, faultOf?_mapM]
      exact findSome?_congr (List.forall₂_same.2 fun raw hraw => h raw (Value.isJson_of_mem hv raw hraw))
    | _ => rfl

namespace Registry

theorem faultOf?_tableOf {raws : List Value} (json : ∀ raw ∈ raws, raw.isJson = true) {isComposite : Bool}
    {models : List Model} (h : List.Forall₂ (Model.Reads isComposite) raws models) :
    faultOf? (tableOf models) = raws.findSome? nameFault? := by
  rw [tableOf, pure_eq_ok, faultOf?_bind_ok]
  exact faultOf?_asKeys (fun _ _ hm => hm.name) json h

theorem faultOf?_make {d : Value} (json : d.isJson = true) {models composites : List Model}
    (hmodels : List.Forall₂ (Model.Reads false) (d.contentsUnder "models") models)
    (hcomposites : List.Forall₂ (Model.Reads true) (d.contentsUnder "types") composites) (enums : Table (List Value)) :
    faultOf? (make models composites enums) =
      firstFault [(d.contentsUnder "models").findSome? nameFault?, (d.contentsUnder "types").findSome? nameFault?] := by
  have hjson := Value.isJson_of_mem_contentsUnder json
  rw [firstFault_cons, firstFault_singleton, make]
  refine faultOf?_bind (faultOf?_tableOf (hjson "models") hmodels) fun _ _ => ?_
  exact (faultOf?_bind_ok _ _).trans (faultOf?_tableOf (hjson "types") (reads_asComposite hcomposites))

theorem faultOf?_ofDatamodel {d : Value} (json : d.isJson = true) :
    faultOf? (do
      let datamodel ← d.entries
      let models ← (← listUnder "models" datamodel).mapM (Model.ofDocument false)
      let composites ← (← listUnder "types" datamodel).mapM (Model.ofDocument true)
      let enums ← (← listUnder "enums" datamodel).mapM enumOfDocument
      Registry.make models composites (.ofEntries enums)) = datamodelFault? d := by
  rw [datamodelFault?, firstFault_cons]
  refine faultOf?_bind (faultOf?_entries d) fun entries hentries => ?_
  obtain rfl := eq_map_of_entries hentries
  rw [firstFault_cons, firstFault_cons, firstFault_cons]
  simp only [← bind_assoc]
  refine faultOf?_bind (faultOf?_listUnder json (fun raw hraw => Model.faultOf?_ofDocument hraw false) "models") ?_
  intro models hmodels
  refine faultOf?_bind (faultOf?_listUnder json (fun raw hraw => Model.faultOf?_ofDocument hraw true) "types") ?_
  intro composites hcomposites
  refine faultOf?_bind (faultOf?_listUnder json (fun raw hraw => faultOf?_enumOfDocument hraw) "enums") fun enums _ => ?_
  refine faultOf?_make json ?_ ?_ _
  · exact (listUnder_loads json (fun raw hraw => Model.ofDocument_loads hraw false) "models").reading_of hmodels
  · exact (listUnder_loads json (fun raw hraw => Model.ofDocument_loads hraw true) "types").reading_of hcomposites

/-- **The fault of a document is that of the first check which it does not pass.** -/
theorem faultOf?_ofDocument {document : Value} (json : document.isJson = true) :
    faultOf? (ofDocument document) = Document.fault? document := by
  rw [Document.fault?, firstFault_cons, firstFault_singleton]
  cases document with
  | map entries => exact faultOf?_ofDatamodel (isJson_datamodel json)
  | _ => rfl

end Registry

/-! ## The faults of documents -/

namespace Document

/-- A fault that a document can have: an error of its own, or a stray fault. -/
def IsDocumentFault (fault : Fault) : Prop := (∃ why, fault = .query (.definition why)) ∨ fault ∈ strayFaults

theorem definition_only {passed : Bool} (why : DefinitionFault) :
    ∀ fault ∈ faultUnless passed (.query (.definition why)), IsDocumentFault fault :=
  forall_mem_faultUnless (.inl ⟨why, rfl⟩)

theorem stray_only {passed : Bool} {fault : Fault} (h : fault ∈ strayFaults) :
    ∀ other ∈ faultUnless passed fault, IsDocumentFault other :=
  forall_mem_faultUnless (.inr h)

theorem object_only {passed : Bool} : ∀ fault ∈ faultUnless passed (.unfit .object), IsDocumentFault fault :=
  stray_only (by simp [strayFaults])

theorem collection_only {passed : Bool} : ∀ fault ∈ faultUnless passed (.unfit .collection), IsDocumentFault fault :=
  stray_only (by simp [strayFaults])

theorem nameFault?_only (raw : Value) : ∀ fault ∈ nameFault? raw, IsDocumentFault fault :=
  stray_only (by simp [strayFaults])

theorem enumValueFault?_only (raw : Value) : ∀ fault ∈ enumValueFault? raw, IsDocumentFault fault :=
  stray_only (by simp [strayFaults])

theorem fieldFault?_only (model raw : Value) : ∀ fault ∈ fieldFault? model raw, IsDocumentFault fault := by
  refine forall_mem_firstFault ?_
  simp only [List.forall_mem_cons]
  exact ⟨object_only, definition_only _, definition_only _, fun _ h => nomatch h⟩

theorem modelFault?_only (raw : Value) : ∀ fault ∈ modelFault? raw, IsDocumentFault fault := by
  have hfields : ∀ fault ∈ (raw.contentsUnder "fields").findSome? (fieldFault? (raw.part "name")), IsDocumentFault fault :=
    forall_mem_findSome? fun field _ => fieldFault?_only _ field
  have hnames : ∀ fault ∈ (raw.contentsUnder "fields").findSome? nameFault?, IsDocumentFault fault :=
    forall_mem_findSome? fun field _ => nameFault?_only field
  refine forall_mem_firstFault ?_
  simp only [List.forall_mem_cons]
  exact ⟨object_only, definition_only _, collection_only, hfields, hnames, fun _ h => nomatch h⟩

theorem enumFault?_only (raw : Value) : ∀ fault ∈ enumFault? raw, IsDocumentFault fault := by
  have hvalues : ∀ fault ∈ (raw.contentsUnder "values").findSome? enumValueFault?, IsDocumentFault fault :=
    forall_mem_findSome? fun value _ => enumValueFault?_only value
  refine forall_mem_firstFault ?_
  simp only [List.forall_mem_cons]
  exact ⟨object_only, definition_only _, collection_only, hvalues, nameFault?_only raw, fun _ h => nomatch h⟩

theorem listFault?_only {entryFault? : Value → Option Fault} (h : ∀ raw, ∀ fault ∈ entryFault? raw, IsDocumentFault fault)
    (key : String) (d : Value) : ∀ fault ∈ listFault? key entryFault? d, IsDocumentFault fault := by
  have hentries : ∀ fault ∈ (d.contentsUnder key).findSome? entryFault?, IsDocumentFault fault :=
    forall_mem_findSome? fun raw _ => h raw
  refine forall_mem_firstFault ?_
  simp only [List.forall_mem_cons]
  exact ⟨definition_only _, hentries, fun _ h => nomatch h⟩

theorem datamodelFault?_only (d : Value) : ∀ fault ∈ datamodelFault? d, IsDocumentFault fault := by
  have hnames : ∀ key, ∀ fault ∈ (d.contentsUnder key).findSome? nameFault?, IsDocumentFault fault :=
    fun key => forall_mem_findSome? fun raw _ => nameFault?_only raw
  refine forall_mem_firstFault ?_
  simp only [List.forall_mem_cons]
  exact ⟨object_only, listFault?_only modelFault?_only _ d, listFault?_only modelFault?_only _ d,
    listFault?_only enumFault?_only _ d, hnames "models", hnames "types", fun _ h => nomatch h⟩

/-- **A document has no other faults** than the errors of its own and the stray ones. -/
theorem fault?_only (document : Value) : ∀ fault ∈ fault? document, IsDocumentFault fault := by
  refine forall_mem_firstFault ?_
  simp only [List.forall_mem_cons]
  exact ⟨definition_only _, datamodelFault?_only _, fun _ h => nomatch h⟩

end Document

namespace Registry

/-- **What becomes of a JSON document**: it is loaded if it passes every check, and otherwise the first check that it does
not pass says what it is refused for.  This is an error of its own, or a stray fault where the check is none. -/
theorem ofDocument_fault {document : Value} (json : document.isJson = true) :
    match Document.fault? document with
    | none => ∃ r, ofDocument document = .ok r
    | some fault => ofDocument document = .error fault ∧ IsDocumentFault fault := by
  have hfault := faultOf?_ofDocument json
  cases h : Document.fault? document with
  | none => exact faultOf?_eq_none_iff.1 (hfault.trans h)
  | some fault => exact ⟨faultOf?_eq_some_iff.1 (hfault.trans h), Document.fault?_only document fault h⟩

def treeOf (fields : Value) : Value := .map [("models", .list [.map [("name", .str "Tree"), ("fields", fields)]])]

/-- A field without a type, which stands in front of an entry that is no field at all. -/
def thicket : Value := treeOf (.list [.map [("name", .str "age"), ("kind", .str "scalar")], .str "height"])

theorem ofDocument_fault_thicket :
    thicket.isJson = true ∧ ofDocument thicket =
      .error (.query (.definition (.incompleteField (.str "Tree")
        (.map [("name", .str "age"), ("kind", .str "scalar")])))) := by
  have json : thicket.isJson = true := by decide
  have hfault : Document.fault? thicket = some (.query (.definition
      (.incompleteField (.str "Tree") (.map [("name", .str "age"), ("kind", .str "scalar")])))) := rfl
  have h := ofDocument_fault json
  rw [hfault] at h
  exact ⟨json, h.1⟩

/-- **Not every malformed document is refused with an error of its own**: fields that are listed by their names alone, a
number of fields, and a value of an enum without a name all end in stray faults. -/
theorem ofDocument_strays :
    (ofDocument (treeOf (.list [.str "age"])) = .error (.unfit .object) ∧
      ofDocument (treeOf (.int 1)) = .error (.unfit .collection) ∧
      ofDocument (.map [("enums", .list [.map [("name", .str "Season"), ("values", .list [.map []])]])]) =
        .error (.missingKey "name") ∧
      ofDocument (.map [("models", .list [.map [("name", .list [.str "Tree"])]])]) = .error (.unfit .key)) ∧
      ¬∀ document : Value, document.isJson = true →
        (∃ r, ofDocument document = .ok r) ∨ ∃ why, ofDocument document = .error (.query (.definition why)) := by
  have hlisted : ofDocument (treeOf (.list [.str "age"])) = .error (.unfit .object) := rfl
  refine ⟨⟨hlisted, rfl, rfl, rfl⟩, fun h => ?_⟩
  obtain ⟨r, hr⟩ | ⟨why, hwhy⟩ := h (treeOf (.list [.str "age"])) (by decide)
  · cases hlisted.symm.trans hr
  · cases hlisted.symm.trans hwhy

end Registry
end ListQuery
