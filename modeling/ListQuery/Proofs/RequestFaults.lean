import ListQuery.Proofs.FilterGroups
import ListQuery.Proofs.SearchOutcome
/-!
# The faults of requests

Any registry answers a request, except where a name or a type in it is used as something that it is not: a type that
cannot be a key when the path goes on behind it, or when raw text is read by it, and a name that is no text when it is put
beside the names that a caller may have meant.  Main statements: `fieldAt_eq_error_iff`, `filterConditions_eq_error_iff` and
`searchConditions_eq_error_iff`, each of which says exactly when a call ends in which fault.
-/
namespace ListQuery

section

variable {ε α β : Type} {fault e : ε}

theorem mapM_eq_error_iff {f : α → Except ε β} {fails : α → Prop} {xs : List α}
    (h : ∀ x ∈ xs, ∀ e, f x = .error e ↔ e = fault ∧ fails x) :
    xs.mapM f = .error e ↔ e = fault ∧ ∃ x ∈ xs, fails x := by
  induction xs with
  | nil =>
    rw [List.mapM_nil]
    exact ⟨fun h => (nomatch h), fun ⟨_, _, h, _⟩ => (nomatch h)⟩
  | cons x xs ih =>
    rw [List.forall_mem_cons] at h
    rw [List.mapM_cons, List.exists_mem_cons_iff]
    cases hx : f x with
    | error e' =>
      obtain ⟨rfl, hfails⟩ := (h.1 e').1 hx
      rw [error_bind, Except.error.injEq]
      exact ⟨fun he => ⟨he.symm, .inl hfails⟩, fun he => he.1.symm⟩
    | ok y =>
      have hpass : ¬fails x := fun hfails => nomatch hx.symm.trans ((h.1 fault).2 ⟨rfl, hfails⟩)
      rw [ok_bind, or_iff_right hpass, ← ih h.2]
      cases xs.mapM f <;> simp

theorem bind_ok_eq_error_iff {x : Except ε α} {g : α → β} : (x >>= fun a => .ok (g a)) = .error e ↔ x = .error e := by
  cases x <;> simp

end

/-- Whether raw text cannot be read as a value of a field, since its scalar type cannot be looked up. -/
def Field.isUnreadable (f : Field) : Bool :=
  match f.kind with
  | .scalar type => !type.isHashable
  | _ => false

theorem Field.valueOf_eq_error_iff {f : Field} {raw : String} {fault : Fault} :
    f.valueOf raw = .error fault ↔ fault = .unfit .key ∧ f.isUnreadable = true := by
  unfold valueOf isUnreadable
  split
  · rename_i hkind
    simp [hkind, Value.isHashable]
  · rename_i type _ hkind
    rw [hkind]
    cases htype : type.isHashable <;> simp [htype, eq_comm]
  · rename_i hkind
    cases hk : f.kind with
    | scalar type => exact absurd hk (hkind type)
    | enum => simp
    | object => simp

theorem Field.isComparable_of_isUnreadable {f : Field} (h : f.isUnreadable = true) : f.isComparable = true := by
  unfold isUnreadable at h
  unfold isComparable isObject
  cases hk : f.kind with
  | object => rw [hk] at h; cases h
  | _ => rfl

namespace Registry

variable {r : Registry} {schema : Value} {path : List String} {fault : Fault}

/-! ## Paths -/

/-- **A path that is cut short**: it goes on behind an object field whose type cannot be looked up. -/
inductive CutShort (r : Registry) : (schema : Value) → (path : List String) → Prop
  | here {schema name next rest g} : r.field? schema name = .ok (some g) → g.isObject = true →
      g.type.isHashable = false → CutShort r schema (name :: next :: rest)
  | behind {schema name next rest g} : r.field? schema name = .ok (some g) → g.isObject = true →
      CutShort r g.type (next :: rest) → CutShort r schema (name :: next :: rest)

theorem cutShort_cons_cons_iff {name next : String} {rest : List String} {g : Field}
    (hg : r.field? schema name = .ok (some g)) : r.CutShort schema (name :: next :: rest) ↔
      g.isObject = true ∧ (g.type.isHashable = false ∨ r.CutShort g.type (next :: rest)) := by
  constructor
  · rintro (⟨hg', ho, h⟩ | ⟨hg', ho, h⟩)
    all_goals obtain rfl := Option.some.inj (Except.ok.inj (hg.symm.trans hg'))
    · exact ⟨ho, .inl h⟩
    · exact ⟨ho, .inr h⟩
  · rintro ⟨ho, h | h⟩
    · exact .here hg ho h
    · exact .behind hg ho h

theorem field?_of_isHashable (h : schema.isHashable = true) (name : String) :
    r.field? schema name = .ok ((r.find? schema).bind fun m => m.field? name) := by
  rw [field?, lookup, Value.asKey, if_pos h]
  rfl

theorem field?_of_not_isHashable (h : schema.isHashable = false) (name : String) :
    r.field? schema name = .error (.unfit .key) := by
  rw [field?, lookup, Value.asKey, h]
  rfl

theorem fieldAt_of_not_isHashable (h : schema.isHashable = false) (name : String) (rest : List String) :
    r.fieldAt schema (name :: rest) = .error (.unfit .key) := by
  rw [fieldAt, follow, field?_of_not_isHashable h]
  rfl

theorem fieldAt_eq_error_iff (path : List String) : ∀ {schema : Value}, schema.isHashable = true →
    (r.fieldAt schema path = .error fault ↔ fault = .unfit .key ∧ r.CutShort schema path) := by
  induction path with
  | nil => exact fun _ => ⟨fun h => (nomatch h), fun h => (nomatch h.2)⟩
  | cons name rest ih =>
    intro schema key
    cases rest with
    | nil =>
      rw [fieldAt_singleton, field?_of_isHashable key]
      exact ⟨fun h => (nomatch h), fun h => (nomatch h.2)⟩
    | cons next rest =>
      have hfield := field?_of_isHashable (r := r) key name
      rw [fieldAt_cons_cons]
      cases hg : (r.find? schema).bind fun m => m.field? name with
      | none =>
        rw [hg] at hfield
        rw [hfield]
        refine ⟨fun h => (nomatch h), fun ⟨_, hcut⟩ => ?_⟩
        cases hcut with
        | here hg' => cases hfield.symm.trans hg'
        | behind hg' => cases hfield.symm.trans hg'
      | some g =>
        rw [hg] at hfield
        rw [cutShort_cons_cons_iff hfield, hfield, ok_bind]
        cases ho : g.isObject with
        | false => simp [ho]
        | true =>
          simp only [ho, if_true, true_and]
          cases hk : g.type.isHashable with
          | false => simp [fieldAt_of_not_isHashable hk, eq_comm]
          | true => simp [ih hk]

theorem not_cutShort_of_fieldAt (key : schema.isHashable = true) {found : Option Field}
    (h : r.fieldAt schema path = .ok found) : ¬r.CutShort schema path :=
  fun hcut => nomatch h.symm.trans ((fieldAt_eq_error_iff path key).2 ⟨rfl, hcut⟩)

theorem exists_fieldAt_of_not_cutShort (key : schema.isHashable = true) (h : ¬r.CutShort schema path) :
    ∃ found, r.fieldAt schema path = .ok found := by
  cases hfound : r.fieldAt schema path with
  | error e => exact absurd ((fieldAt_eq_error_iff path key).1 hfound).2 h
  | ok found => exact ⟨found, rfl⟩

/-! ## Filters -/

theorem conditionAt_eq_error (leaf : Field → Except Fault (Option Condition)) (path : List String) :
    ∀ {schema : Value}, r.fieldAt schema path = .error fault → r.conditionAt leaf schema path = .error fault := by
  induction path with
  | nil => exact fun h => nomatch h
  | cons name rest ih =>
    intro schema h
    cases rest with
    | nil =>
      rw [fieldAt_singleton] at h
      rw [conditionAt, h, error_bind]
    | cons next rest =>
      rw [fieldAt_cons_cons] at h
      rw [conditionAt_cons_cons]
      cases hg : r.field? schema name with
      | error e =>
        rw [hg] at h
        exact congrArg Except.error (Except.error.inj h)
      | ok found =>
        rw [hg, ok_bind] at h
        cases found with
        | none => cases h
        | some g =>
          cases ho : g.isObject with
          | false => simp [ho] at h
          | true =>
            simp only [ho, if_true] at h
            simp only [ok_bind, ho, if_true, ih h, error_bind]

/-- **A path by which nothing can be filtered**: it is cut short, or it leads to a field whose type cannot be looked up. -/
def Unfilterable (r : Registry) (schema : Value) (path : List String) : Prop :=
  r.CutShort schema path ∨ ∃ via f, Route r schema path via f ∧ f.isUnreadable = true

theorem filterCondition_eq_error_iff (key : schema.isHashable = true) (raw : String) :
    r.filterCondition schema path raw = .error fault ↔ fault = .unfit .key ∧ r.Unfilterable schema path := by
  cases hfound : r.fieldAt schema path with
  | error e =>
    obtain ⟨rfl, hcut⟩ := (fieldAt_eq_error_iff path key).1 hfound
    rw [filterCondition_eq_conditionAt, conditionAt_eq_error _ path hfound, Except.error.injEq]
    exact ⟨fun h => ⟨h.symm, .inl hcut⟩, fun h => h.1.symm⟩
  | ok found =>
    have hcut := not_cutShort_of_fieldAt key hfound
    rw [Unfilterable, or_iff_right hcut]
    cases found with
    | none =>
      rw [filterCondition_eq_none raw hfound]
      refine ⟨fun h => (nomatch h), ?_⟩
      rintro ⟨-, via, f, hroute, -⟩
      cases hfound.symm.trans hroute.fieldAt
    | some f =>
      obtain ⟨via, hroute⟩ := exists_route path hfound
      have hend : (∃ via f, Route r schema path via f ∧ f.isUnreadable = true) ↔ f.isUnreadable = true := by
        constructor
        · rintro ⟨via', f', hroute', h⟩
          obtain ⟨-, rfl⟩ := hroute.unique hroute'
          exact h
        · exact fun h => ⟨via, f, hroute, h⟩
      rw [filterCondition_of_route hroute, hend]
      split
      · rw [bind_ok_eq_error_iff, Field.valueOf_eq_error_iff]
      · rename_i hcomparable
        exact ⟨fun h => (nomatch h), fun h => absurd (Field.isComparable_of_isUnreadable h.2) hcomparable⟩

theorem keyCondition_eq_error_iff {model key : String} {values : List String} (hvalues : values ≠ []) :
    r.keyCondition (.str model) key values = .error fault ↔
      fault = .unfit .key ∧ r.Unfilterable (.str model) (splitText '.' key) := by
  have hall : values.mapM (fun value => r.filterCondition (.str model) (splitText '.' key) value) = .error fault ↔
      fault = .unfit .key ∧ ∃ value ∈ values, r.Unfilterable (.str model) (splitText '.' key) :=
    mapM_eq_error_iff fun value _ e => filterCondition_eq_error_iff rfl value
  obtain ⟨value, hvalue⟩ := List.exists_mem_of_ne_nil values hvalues
  have hsome : (∃ value ∈ values, r.Unfilterable (.str model) (splitText '.' key)) ↔
      r.Unfilterable (.str model) (splitText '.' key) :=
    ⟨fun ⟨_, _, h⟩ => h, fun h => ⟨value, hvalue, h⟩⟩
  rw [keyCondition]
  simp only [pure_eq_ok]
  rw [bind_ok_eq_error_iff, hall, hsome]

/-- **A filter gives conditions unless nothing can be filtered by one of its keys.** -/
theorem filterConditions_eq_error_iff {model filter : String} :
    r.filterConditions (.str model) filter = .error fault ↔
      fault = .unfit .key ∧ ∃ pair ∈ FilterPairs.given filter, r.Unfilterable (.str model) (splitText '.' pair.1) := by
  have hgroups : (FilterPairs.ofText filter).mapM (fun group => r.keyCondition (.str model) group.1 group.2) =
      .error fault ↔ fault = .unfit .key ∧ ∃ group ∈ FilterPairs.ofText filter,
        r.Unfilterable (.str model) (splitText '.' group.1) :=
    mapM_eq_error_iff fun group hgroup e => keyCondition_eq_error_iff (FilterPairs.ne_nil_of_mem_ofText hgroup)
  -- the groups have the keys of the pairs, each of them once
  have hkeys : (∃ group ∈ FilterPairs.ofText filter, r.Unfilterable (.str model) (splitText '.' group.1)) ↔
      ∃ pair ∈ FilterPairs.given filter, r.Unfilterable (.str model) (splitText '.' pair.1) := by
    simp only [FilterPairs.ofText_eq, List.mem_map, List.mem_eraseDups, exists_exists_and_eq_and]
  rw [filterConditions]
  simp only [pure_eq_ok]
  rw [bind_ok_eq_error_iff, ← hkeys]
  exact hgroups

/-! ## Searches -/

theorem asTexts_eq_error_iff {names : List Value} :
    asTexts names = .error fault ↔ fault = .unfit .text ∧ ∃ name ∈ names, name.isText = false := by
  refine mapM_eq_error_iff fun name _ e => ?_
  cases name <;> simp [Value.isText, eq_comm]

theorem asTexts_eq_ok_iff {names : List Value} {texts : List String} :
    asTexts names = .ok texts ↔ names = texts.map .str := by
  constructor
  · intro h
    have htexts : ∀ name ∈ names, name.isText = true := by
      intro name hname
      by_contra hno
      cases h.symm.trans (asTexts_eq_error_iff.2 ⟨rfl, name, hname, Bool.eq_false_iff.2 hno⟩)
    obtain ⟨texts', rfl⟩ := Value.exists_eq_map_str (List.all_eq_true.2 htexts)
    rw [asTexts_map_str, Except.ok.injEq] at h
    rw [h]
  · rintro rfl
    exact asTexts_map_str texts

/-- The fault of a refusal that tells names: the error with the names, if they are texts. -/
inductive Refusal (names : List Value) (error : List String → QueryError) : Fault → Prop
  | told {texts : List String} : names = texts.map .str → Refusal names error (.query (error texts))
  | untold : (∃ name ∈ names, name.isText = false) → Refusal names error (.unfit .text)

theorem refusal_iff {α : Type} {names : List Value} {error : List String → QueryError} :
    ((asTexts names >>= fun texts => .error (.query (error texts))) : Except Fault α) = .error fault ↔
      Refusal names error fault := by
  constructor
  · intro h
    cases htexts : asTexts names with
    | error e =>
      obtain ⟨rfl, hname⟩ := asTexts_eq_error_iff.1 htexts
      rw [htexts] at h
      obtain rfl := Except.error.inj h
      exact .untold hname
    | ok texts =>
      rw [htexts] at h
      obtain rfl := Except.error.inj h
      exact .told (asTexts_eq_ok_iff.1 htexts)
  · rintro (hnames | hname)
    · rw [asTexts_eq_ok_iff.2 hnames, ok_bind]
    · rw [asTexts_eq_error_iff.2 ⟨rfl, hname⟩, error_bind]

section

variable {model : String} {paths : List String}

theorem validateSearch_of_cutShort (h : ∃ path ∈ paths, r.CutShort (.str model) (splitText '.' path)) :
    r.validateSearch model paths = (.error (.unfit .key), []) := by
  have hchecked : r.invalidPaths model paths = .error (.unfit .key) := by
    rw [invalidPaths]
    simp only [pure_eq_ok]
    rw [bind_ok_eq_error_iff]
    refine (mapM_eq_error_iff fun path _ e => ?_).2 ⟨rfl, h⟩
    rw [bind_ok_eq_error_iff, isSearchable]
    simp only [pure_eq_ok]
    rw [bind_ok_eq_error_iff]
    exact fieldAt_eq_error_iff _ rfl
  rw [validateSearch, hchecked]

theorem invalidPaths_of_not_cutShort (h : ∀ path ∈ paths, ¬r.CutShort (.str model) (splitText '.' path)) :
    r.invalidPaths model paths = .ok (r.refused model paths) := by
  refine invalidPaths_of_isSearchable fun path hpath => ?_
  obtain ⟨found, hfound⟩ := exists_fieldAt_of_not_cutShort rfl (h path hpath)
  have hsearchable := isSearchable_of_fieldAt hfound
  rw [accepts, hsearchable]

theorem validateSearch_of_accepted (h : ∀ path ∈ paths, ¬r.CutShort (.str model) (splitText '.' path))
    (hrefused : r.refused model paths = []) : r.validateSearch model paths = (.ok (), []) := by
  rw [validateSearch, invalidPaths_of_not_cutShort h, hrefused]

theorem validateSearch_of_refused (h : ∀ path ∈ paths, ¬r.CutShort (.str model) (splitText '.' path))
    (hrefused : r.refused model paths ≠ []) :
    (r.validateSearch model paths).1 = asTexts (r.searchableNames model) >>= fun available =>
      .error (.query (.searchFields model (r.refused model paths) available)) := by
  rw [validateSearch, invalidPaths_of_not_cutShort h]
  cases hpaths : r.refused model paths with
  | nil => exact absurd hpaths hrefused
  | cons => rfl

theorem of_validateSearch (h : (r.validateSearch model paths).1 = .ok ()) :
    r.refused model paths = [] ∧ r.validateSearch model paths = (.ok (), []) := by
  have hfollowed : ∀ path ∈ paths, ¬r.CutShort (.str model) (splitText '.' path) := by
    intro path hpath hcut
    rw [validateSearch_of_cutShort ⟨path, hpath, hcut⟩] at h
    cases h
  by_cases hrefused : r.refused model paths = []
  · exact ⟨hrefused, validateSearch_of_accepted hfollowed hrefused⟩
  · rw [validateSearch_of_refused hfollowed hrefused] at h
    obtain ⟨_, -, h⟩ := bind_eq_ok_iff.1 h
    cases h

theorem validateSearch_eq_error_iff : (r.validateSearch model paths).1 = .error fault ↔
    (fault = .unfit .key ∧ ∃ path ∈ paths, r.CutShort (.str model) (splitText '.' path)) ∨
      (∀ path ∈ paths, ¬r.CutShort (.str model) (splitText '.' path)) ∧ r.refused model paths ≠ [] ∧
        Refusal (r.searchableNames model) (.searchFields model (r.refused model paths)) fault := by
  by_cases hcut : ∃ path ∈ paths, r.CutShort (.str model) (splitText '.' path)
  · rw [validateSearch_of_cutShort hcut, Except.error.injEq]
    constructor
    · exact fun h => .inl ⟨h.symm, hcut⟩
    · rintro (⟨rfl, -⟩ | ⟨hfollowed, -⟩)
      · rfl
      · obtain ⟨path, hpath, h⟩ := hcut
        exact absurd h (hfollowed path hpath)
  · have hfollowed : ∀ path ∈ paths, ¬r.CutShort (.str model) (splitText '.' path) :=
      fun path hpath h => hcut ⟨path, hpath, h⟩
    rw [or_iff_right fun h => hcut h.2, and_iff_right hfollowed]
    by_cases hrefused : r.refused model paths = []
    · rw [validateSearch_of_accepted hfollowed hrefused]
      exact ⟨nofun, fun h => absurd hrefused h.1⟩
    · rw [validateSearch_of_refused hfollowed hrefused, refusal_iff, Ne, and_iff_right hrefused]

theorem searchConditions_of_known_eq_error_iff (hmodel : .str model ∈ r.modelNames) (hpaths : paths ≠ [])
    (mode : Option Value) (term : Option String) :
    (r.searchConditions mode model term paths).1 = .error fault ↔ (r.validateSearch model paths).1 = .error fault := by
  cases hvalid : (r.validateSearch model paths).1 with
  | error e =>
    have hsearch : (r.searchConditions mode model term paths).1 = .error e := by
      rw [searchConditions_of_known hmodel mode term hpaths, hvalid]
      rfl
    rw [hsearch, Except.error.injEq, Except.error.injEq]
  | ok =>
    obtain ⟨hrefused, hvalid⟩ := of_validateSearch hvalid
    have hok : ∃ conditions, (r.searchConditions mode model term paths).1 = .ok conditions := by
      by_cases hterm : term.getD "" = ""
      · rw [searchConditions_of_known hmodel mode term hpaths, hvalid, ok_bind, if_pos hterm]
        exact ⟨[], rfl⟩
      · obtain ⟨t, rfl⟩ : ∃ t, term = some t := Option.ne_none_iff_exists'.1 fun h => hterm (by rw [h]; rfl)
        have hterm : t ≠ "" := hterm
        obtain ⟨conditions, hsearch, -⟩ := searchConditions_of_valid hmodel hpaths hrefused hvalid mode hterm
        exact ⟨conditions, by rw [hsearch]⟩
    obtain ⟨conditions, hok⟩ := hok
    rw [hok]
    exact ⟨fun h => (nomatch h), fun h => (nomatch h)⟩

theorem searchConditions_of_not_mem (h : .str model ∉ r.modelNames) (mode : Option Value) (term : Option String)
    (paths : List String) : (r.searchConditions mode model term paths).1 =
      asTexts r.modelNames >>= fun names => .error (.query (.unknownModel model names)) := by
  rw [searchConditions, Bool.eq_false_iff.2 (isModel_str_iff.not.2 h)]
  rfl

/-- **The faults of a search**, each with its condition, in the order of the checks. -/
inductive SearchFault (r : Registry) (model : String) (paths : List String) : Fault → Prop
  | unknown {fault : Fault} : .str model ∉ r.modelNames → Refusal r.modelNames (.unknownModel model) fault →
      SearchFault r model paths fault
  | nothing : .str model ∈ r.modelNames → paths = [] → SearchFault r model paths (.query (.nothingToSearch model []))
  | cutShort : .str model ∈ r.modelNames → (∃ path ∈ paths, r.CutShort (.str model) (splitText '.' path)) →
      SearchFault r model paths (.unfit .key)
  | refused {fault : Fault} : .str model ∈ r.modelNames →
      (∀ path ∈ paths, ¬r.CutShort (.str model) (splitText '.' path)) → r.refused model paths ≠ [] →
      Refusal (r.searchableNames model) (.searchFields model (r.refused model paths)) fault →
      SearchFault r model paths fault

/-- **A search gives conditions unless one of its checks is not passed**; whether there is a term is no matter. -/
theorem searchConditions_eq_error_iff (mode : Option Value) (term : Option String) :
    (r.searchConditions mode model term paths).1 = .error fault ↔ r.SearchFault model paths fault := by
  constructor
  · intro h
    by_cases hmodel : .str model ∈ r.modelNames
    · by_cases hpaths : paths = []
      · subst hpaths
        rw [searchConditions, isModel_str_iff.2 hmodel] at h
        obtain rfl := Except.error.inj h
        exact .nothing hmodel rfl
      · rw [searchConditions_of_known_eq_error_iff hmodel hpaths, validateSearch_eq_error_iff] at h
        rcases h with ⟨rfl, hcut⟩ | ⟨hfollowed, hrefused, h⟩
        · exact .cutShort hmodel hcut
        · exact .refused hmodel hfollowed hrefused h
    · rw [searchConditions_of_not_mem hmodel, refusal_iff] at h
      exact .unknown hmodel h
  · rintro (⟨hmodel, h⟩ | ⟨hmodel, rfl⟩ | ⟨hmodel, hcut⟩ | ⟨hmodel, hfollowed, hrefused, h⟩)
    · rw [searchConditions_of_not_mem hmodel, refusal_iff]
      exact h
    · rw [searchConditions, isModel_str_iff.2 hmodel]
      rfl
    · obtain ⟨path, hpath, -⟩ := id hcut
      rw [searchConditions_of_known_eq_error_iff hmodel (List.ne_nil_of_mem hpath), validateSearch_eq_error_iff]
      exact .inl ⟨rfl, hcut⟩
    · have hpaths : paths ≠ [] := by
        rintro rfl
        exact hrefused rfl
      rw [searchConditions_of_known_eq_error_iff hmodel hpaths, validateSearch_eq_error_iff]
      exact .inr ⟨hfollowed, hrefused, h⟩

end

end Registry
end ListQuery
