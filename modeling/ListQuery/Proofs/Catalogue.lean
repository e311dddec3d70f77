import Mathlib.Data.List.Nodup
import Mathlib.Data.List.TFAE
import ListQuery.Proofs.CollectedRows
import ListQuery.Proofs.LoadedRegistry
import ListQuery.Proofs.SearchOutcome
import ListQuery.Proofs.SelectionLevels
/-!
# A registry as a catalogue

The names of a registry can be gone through, counted, tested and looked up, and each of these reads the two tables in a way
of its own.  They tell of the same names all the same, whichever of them are given more than once: the names stand in the
order in which they were first given (`Table.names_ofEntries`), and what is found is what was given last
(`get?_ofModels_eq_some_iff`).  Main statement: `Registry.make_catalogue`.
-/
namespace ListQuery

variable {α β : Type}

/-! ## The last of a row -/

/-- The last of a row for which something holds. -/
def IsLast (p : α → Prop) (xs : List α) (x : α) : Prop :=
  ∃ before behind, xs = before ++ x :: behind ∧ p x ∧ ∀ y ∈ behind, ¬p y

theorem find?_reverse_eq_some_iff {p : α → Bool} {xs : List α} {x : α} :
    xs.reverse.find? p = some x ↔ IsLast (fun y => p y = true) xs x := by
  rw [List.find?_eq_some_iff_append]
  constructor
  · rintro ⟨hx, behind, before, heq, hbehind⟩
    refine ⟨before.reverse, behind.reverse, ?_, hx, fun y hy => ?_⟩
    · rw [← List.reverse_reverse xs, heq]
      simp
    · simpa using hbehind y (List.mem_reverse.1 hy)
  · rintro ⟨before, behind, rfl, hx, hbehind⟩
    refine ⟨hx, behind.reverse, before.reverse, by simp, fun y hy => ?_⟩
    simpa using hbehind y (List.mem_reverse.1 hy)

/-! ## Names in their order -/

theorem eraseDupsBy_map (f : α → β) (same : β → β → Bool) : ∀ xs : List α,
    (xs.map f).eraseDupsBy same = (xs.eraseDupsBy fun a b => same (f a) (f b)).map f
  | [] => rfl
  | x :: xs => by
    have ih := eraseDupsBy_map f same (xs.filter fun b => decide (same (f b) (f x) = false))
    rw [List.map_cons, List.eraseDupsBy_cons, List.eraseDupsBy_cons, List.map_cons, List.filter_map, ← ih]
    rfl
termination_by xs => xs.length
decreasing_by exact Nat.lt_succ_of_le (List.length_filter_le _ _)

theorem Value.sameName_str_str (s t : String) : (Value.str s).sameName (.str t) = (s == t) := by
  rw [Bool.eq_iff_iff, sameName_str_iff, Value.str.injEq, beq_iff_eq]

theorem eraseDupsBy_map_str (texts : List String) :
    (texts.map Value.str).eraseDupsBy Value.sameName = texts.eraseDups.map .str := by
  rw [eraseDupsBy_map, List.eraseDups]
  simp only [Value.sameName_str_str]

namespace Table

theorem names_foldl_put : ∀ (entries : List (Value × α)) (t : Table α) (rows : List (Value × List α)),
    t.names = Entries.keys rows →
      names (entries.foldl (fun t e => t.put e.1 e.2) t) = Entries.keys (entries.foldl (Entries.put Value.sameName) rows)
  | [], _, _, h => h
  | e :: entries, t, rows, h => by
    refine names_foldl_put entries _ _ ?_
    rw [names] at h ⊢
    simp only [put, Entries.put, Entries.keys_alter, h]

theorem pairwise_names_ofEntries (entries : List (Value × α)) :
    (ofEntries entries).names.Pairwise fun k l => k.sameName l = false := by
  rw [ofEntries, names_foldl_put entries [] [] rfl]
  exact Entries.pairwise_keys_collect entries

theorem names_ofEntries (entries : List (Value × α)) :
    (ofEntries entries).names = (entries.map Prod.fst).eraseDupsBy Value.sameName := by
  have hsymm : (fun l k : Value => k.sameName l) = Value.sameName := by
    funext l k
    exact Bool.eq_iff_iff.2 ⟨Value.sameName_symm, Value.sameName_symm⟩
  rw [ofEntries, names_foldl_put entries [] [] rfl, ← Entries.collect, Entries.keys_collect, hsymm]

end Table

/-! ## Models by name -/

def Table.ofModels (models : List Model) : Table Model := .ofEntries (models.map fun m => (m.name, m))

theorem names_ofModels {models : List Model} {texts : List String} (h : models.map Model.name = texts.map .str) :
    (Table.ofModels models).names = texts.eraseDups.map .str := by
  rw [Table.ofModels, Table.names_ofEntries, List.map_map, ← eraseDupsBy_map_str, ← h]
  rfl

theorem get?_ofModels_eq_some_iff {models : List Model} {name : String} {m : Model} :
    (Table.ofModels models).get? (.str name) = some m ↔ IsLast (fun k : Model => k.name = .str name) models m := by
  rw [Table.ofModels, Table.get?_ofEntries, ← List.map_reverse, List.find?_map, Option.map_map]
  have hsnd : (Prod.snd ∘ fun k : Model => (k.name, k)) = id := rfl
  rw [hsnd, Option.map_id, id, find?_reverse_eq_some_iff]
  simp only [Function.comp_apply, Value.sameName_str_iff]

theorem get?_ofModels_eq_none_iff {models : List Model} {name : String} :
    (Table.ofModels models).get? (.str name) = none ↔ ∀ k ∈ models, k.name ≠ .str name := by
  rw [Table.ofModels, Table.get?_ofEntries, Option.map_eq_none_iff, List.find?_eq_none]
  simp [Value.sameName_str_iff]

theorem Model.field?_eq_some_iff {m : Model} {label : String} {f : Field} :
    m.field? label = some f ↔ IsLast (fun g : Field => g.name = .str label) m.fields f := by
  have hnamed : ∀ g : Field, g.isNamed label = true ↔ g.name = .str label := fun g =>
    ⟨Value.eq_str_of_sameKey, fun h => by simp [Field.isNamed, h, Value.sameKey]⟩
  rw [field?, find?_reverse_eq_some_iff]
  simp only [hnamed]

namespace Registry

theorem tableOf_eq_ok {models : List Model} {texts : List String} (h : models.map Model.name = texts.map .str) :
    tableOf models = .ok (.ofModels models) := by
  have hkeys : ∀ m ∈ models, m.name.isHashable = true := by
    intro m hm
    obtain ⟨text, -, htext⟩ := List.mem_map.1 (h ▸ List.mem_map_of_mem hm)
    rw [← htext]
    rfl
  obtain ⟨u, hu⟩ := (Loads.asKeys Model.name models).ok_iff.2 hkeys
  rw [tableOf, hu]
  rfl

variable {r : Registry}

theorem tableOf_eq_ofModels {models : List Model} {t : Table Model} (h : tableOf models = .ok t) : t = .ofModels models := by
  obtain ⟨_, -, h⟩ := bind_eq_ok_iff.1 h
  exact (Except.ok.inj h).symm

theorem eq_of_make {models composites : List Model} {enums : Table (List Value)} (h : make models composites enums = .ok r) :
    r = ⟨.ofModels models, .ofModels (composites.map Model.asComposite), enums⟩ := by
  obtain ⟨ms, hms, h⟩ := bind_eq_ok_iff.1 h
  obtain ⟨cs, hcs, h⟩ := bind_eq_ok_iff.1 h
  rw [← tableOf_eq_ofModels hms, ← tableOf_eq_ofModels hcs]
  exact (Except.ok.inj h).symm

theorem isSome_find?_iff {name : String} : (r.find? (.str name)).isSome = true ↔ .str name ∈ r.names := by
  have hmodel : (r.models.get? (.str name)).isSome = true ↔ .str name ∈ r.modelNames := isModel_str_iff
  have hcomposite : (r.composites.get? (.str name)).isSome = true ↔ .str name ∈ r.compositeNames :=
    @isModel_str_iff ⟨r.composites, [], []⟩ name
  rw [find?, Option.isSome_or, Bool.or_eq_true, hmodel, hcomposite, names, List.mem_append, List.mem_filter,
    Bool.not_eq_true', Bool.eq_false_iff, Ne, isModel_str_iff]
  tauto

theorem get_of_find? {name : String} {m : Model} (h : r.find? (.str name) = some m) : r.get name = .ok m := by
  rw [get, h]

theorem get_of_find?_eq_none {name : String} (h : r.find? (.str name) = none) : r.get name = .error (.missingKey name) := by
  rw [get, h]

theorem get?_eq_find? (name : String) : r.get? name = r.find? (.str name) := by
  cases h : r.find? (.str name) with
  | none => rw [get?, get_of_find?_eq_none h]; rfl
  | some m => rw [get?, get_of_find? h]; rfl

theorem views (name : String) : List.TFAE [.str name ∈ r.names, r.contains name = true, ∃ m, r.get name = .ok m,
    (r.get? name).isSome = true, (r.find? (.str name)).isSome = true] := by
  rw [get?_eq_find?, contains, ← isSome_find?_iff]
  cases h : r.find? (.str name) with
  | none => simp [get_of_find?_eq_none h, Except.isOk, Except.toBool]
  | some m => simp [get_of_find? h, Except.isOk, Except.toBool]

def namesInOrder (modelNames compositeNames : List String) : List String :=
  modelNames.eraseDups ++ compositeNames.eraseDups.filter (· ∉ modelNames)

theorem nodup_namesInOrder (modelNames compositeNames : List String) : (namesInOrder modelNames compositeNames).Nodup := by
  rw [namesInOrder, List.nodup_append]
  refine ⟨nodup_eraseDups _, (nodup_eraseDups _).filter _, ?_⟩
  rintro name hmodel _ hcomposite rfl
  have hhidden := (List.mem_filter.1 hcomposite).2
  exact of_decide_eq_true hhidden (List.mem_eraseDups.1 hmodel)

section

variable {modelNames compositeNames : List String} (hmodels : r.modelNames = modelNames.eraseDups.map .str)
  (hcomposites : r.compositeNames = compositeNames.eraseDups.map .str)

include hmodels hcomposites

theorem names_eq_map_str : r.names = (namesInOrder modelNames compositeNames).map .str := by
  have hhidden : (fun n => !r.isModel n) ∘ Value.str = fun name : String => decide (name ∉ modelNames) := by
    funext name
    have hmodel : r.isModel (.str name) = true ↔ name ∈ modelNames := by
      rw [isModel_str_iff, hmodels]
      simp
    by_cases h : name ∈ modelNames
    · simp [h, hmodel.2 h]
    · simp [h, Bool.eq_false_iff.2 fun hname => h (hmodel.1 hname)]
  rw [names, hcomposites, List.filter_map, hhidden, hmodels, ← List.map_append, namesInOrder]

theorem size_eq_length_names : r.size = r.names.length := by
  rw [size, names_eq_map_str hmodels hcomposites, hmodels, hcomposites, ← List.map_append, eraseDupsBy_map_str,
    List.length_map, List.length_map]
  apply List.Perm.length_eq
  rw [List.perm_ext_iff_of_nodup (nodup_eraseDups _) (nodup_namesInOrder _ _)]
  intro name
  by_cases h : name ∈ modelNames <;> simp [namesInOrder, h]

end

/-- **What a registry of these models and composites is as a catalogue**, where their names are texts. -/
structure Catalogue (models composites : List Model) (modelNames compositeNames : List String) (r : Registry) : Prop where
  names : r.names = (namesInOrder modelNames compositeNames).map .str
  once : r.names.Nodup
  size : r.size = r.names.length
  views (name : String) : List.TFAE [.str name ∈ r.names, r.contains name = true, ∃ m, r.get name = .ok m,
    (r.get? name).isSome = true, (r.find? (.str name)).isSome = true]
  missing {name : String} : .str name ∉ r.names → r.get name = .error (.missingKey name)
  found {name : String} {m : Model} : r.find? (.str name) = some m → r.get name = .ok m ∧ r.get? name = some m
  model {name : String} {m : Model} : IsLast (fun k => k.name = .str name) models m → r.find? (.str name) = some m
  composite {name : String} {m : Model} : (∀ k ∈ models, k.name ≠ .str name) →
    IsLast (fun k => k.name = .str name) composites m → r.find? (.str name) = some m.asComposite
  field {name label : String} {m : Model} : r.find? (.str name) = some m →
    r.field? (.str name) label = .ok (m.field? label) ∧
      ∀ f, m.field? label = some f ↔ IsLast (fun g : Field => g.name = .str label) m.fields f

theorem isLast_map_asComposite {name : String} {composites : List Model} {m : Model}
    (h : IsLast (fun k => k.name = .str name) composites m) :
    IsLast (fun k => k.name = .str name) (composites.map Model.asComposite) m.asComposite := by
  obtain ⟨before, behind, rfl, hm, hbehind⟩ := h
  refine ⟨before.map Model.asComposite, behind.map Model.asComposite, by simp, hm, ?_⟩
  simpa [Model.asComposite] using hbehind

theorem catalogue_of_tables {models composites : List Model} {modelNames compositeNames : List String}
    (hmodels : models.map Model.name = modelNames.map .str)
    (hcomposites : composites.map Model.name = compositeNames.map .str) (hm : r.models = .ofModels models)
    (hc : r.composites = .ofModels (composites.map Model.asComposite)) :
    Catalogue models composites modelNames compositeNames r := by
  have hmodelNames : r.modelNames = modelNames.eraseDups.map .str := by
    rw [Registry.modelNames, hm, names_ofModels hmodels]
  have hcompositeNames : r.compositeNames = compositeNames.eraseDups.map .str := by
    rw [Registry.compositeNames, hc]
    apply names_ofModels
    rw [List.map_map]
    exact hcomposites
  have hnames := names_eq_map_str hmodelNames hcompositeNames
  constructor
  case names => exact hnames
  case once =>
    rw [hnames]
    exact (nodup_namesInOrder _ _).map fun _ _ => Value.str.inj
  case size => exact size_eq_length_names hmodelNames hcompositeNames
  case views => exact views
  case missing =>
    intro name h
    rw [← isSome_find?_iff, Option.not_isSome_iff_eq_none] at h
    exact get_of_find?_eq_none h
  case found =>
    intro name m h
    exact ⟨get_of_find? h, (get?_eq_find? name).trans h⟩
  case model =>
    intro name m h
    apply find?_of_model
    rw [hm, get?_ofModels_eq_some_iff]
    exact h
  case composite =>
    intro name m hnone h
    have hmodel : r.models.get? (.str name) = none := by rwa [hm, get?_ofModels_eq_none_iff]
    rw [find?_of_no_model hmodel, hc, get?_ofModels_eq_some_iff]
    exact isLast_map_asComposite h
  case field =>
    intro name label m h
    refine ⟨?_, fun f => Model.field?_eq_some_iff⟩
    rw [field?_str, h]
    rfl

/-- **A registry of models and composites is a coherent catalogue**, however their names are repeated: each name stands once,
those of the models first; the names are counted, tested and looked up as they stand; and what is found under a name is the
last model given with it, or else the last composite. -/
theorem make_catalogue {models composites : List Model} {modelNames compositeNames : List String}
    (hmodels : models.map Model.name = modelNames.map .str)
    (hcomposites : composites.map Model.name = compositeNames.map .str) (enums : Table (List Value)) :
    ∃ r, make models composites enums = .ok r ∧ Catalogue models composites modelNames compositeNames r := by
  have hflagged : (composites.map Model.asComposite).map Model.name = compositeNames.map .str := by
    rw [List.map_map]
    exact hcomposites
  refine ⟨⟨.ofModels models, .ofModels (composites.map Model.asComposite), enums⟩, ?_, ?_⟩
  · rw [make, tableOf_eq_ok hmodels, ok_bind, tableOf_eq_ok hflagged]
    rfl
  · exact catalogue_of_tables hmodels hcomposites rfl rfl

def hedgeField (name type : String) : Field := ⟨.str name, .scalar (.str type), false⟩

/-- Trees are given twice among the models and once as a composite, and the second of them gives its height twice. -/
def hedgeModels : List Model :=
  [⟨.str "Tree", [], false⟩, ⟨.str "Bush", [], false⟩,
    ⟨.str "Tree", [hedgeField "height" "Int", hedgeField "height" "Float"], false⟩]

def hedgeComposites : List Model :=
  [⟨.str "Spot", [], false⟩, ⟨.str "Tree", [hedgeField "depth" "Int"], false⟩, ⟨.str "Spot", [hedgeField "x" "Int"], false⟩]

theorem make_catalogue_hedge :
    hedgeModels.map Model.name = ["Tree", "Bush", "Tree"].map .str ∧
      hedgeComposites.map Model.name = ["Spot", "Tree", "Spot"].map .str ∧
      ∃ r, make hedgeModels hedgeComposites [] = .ok r ∧ r.names = [.str "Tree", .str "Bush", .str "Spot"] ∧ r.size = 3 ∧
        r.contains "Spot" = true ∧ r.get "Fern" = .error (.missingKey "Fern") ∧
        r.field? (.str "Tree") "height" = .ok (some (hedgeField "height" "Float")) ∧
        r.get "Spot" = .ok ⟨.str "Spot", [hedgeField "x" "Int"], true⟩ := by
  obtain ⟨r, hr, h⟩ :=
    @make_catalogue hedgeModels hedgeComposites ["Tree", "Bush", "Tree"] ["Spot", "Tree", "Spot"] rfl rfl []
  have hnames : r.names = [.str "Tree", .str "Bush", .str "Spot"] := h.names
  have hspot : r.find? (.str "Spot") = some ⟨.str "Spot", [hedgeField "x" "Int"], true⟩ :=
    h.composite (by simp [hedgeModels]) ⟨hedgeComposites.take 2, [], rfl, rfl, by simp⟩
  have htree : r.find? (.str "Tree") = some ⟨.str "Tree", [hedgeField "height" "Int", hedgeField "height" "Float"], false⟩ :=
    h.model ⟨hedgeModels.take 2, [], rfl, rfl, by simp⟩
  have hfield := @h.field "Tree" "height" _ htree
  have hlast : IsLast (fun g : Field => g.name = .str "height") _ (hedgeField "height" "Float") :=
    ⟨[hedgeField "height" "Int"], [], rfl, rfl, by simp⟩
  refine ⟨rfl, rfl, r, hr, hnames, ?_, ?_, ?_, ?_, ?_⟩
  · rw [h.size, hnames]
    rfl
  · exact ((h.views "Spot").out 1 0).2 (by simp [hnames])
  · exact h.missing (by simp [hnames])
  · rw [hfield.1, (hfield.2 _).2 hlast]
  · exact (h.found hspot).1

end Registry
end ListQuery
