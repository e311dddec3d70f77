import ListQuery.Proofs.ContentEquality
import ListQuery.Proofs.SortGate
/-!
# Settled parameters

A request says the same thing in many ways: numbers and flags as texts, null for what is not given, a path with blanks
around it and under either of two names.  Accepted parameters say it in one way, and given as a request they are accepted
as they are.  Each check has to pass what it gave itself, which is shown check by check.  Main statement:
`ofRequest_entries`.
-/
namespace ListQuery.Parameters

variable {maxLimit : Value} {settings : Settings} {given : List (String × Value)} {p : Parameters}

/-! ## Each check passes what it gave -/

theorem checkPositive_int {n : Int} (h : 1 ≤ n) : checkPositive (.int n) = .ok n := by
  have hinteger : (Value.int n).requestInteger = .ok n := rfl
  rw [checkPositive, hinteger, ok_bind, if_neg (by omega), pure_eq_ok]

theorem checkLimit_int {n : Int} (h : 1 ≤ n) (hbound : maxLimit = .null ∨ exceeds n maxLimit = .ok false) :
    checkLimit maxLimit (.int n) = .ok (.ok n) := by
  unfold checkLimit
  rw [checkPositive_int h]
  rcases hbound with rfl | hbound
  · rfl
  · split
    · rename_i hpositive
      cases hpositive
    · rename_i hpositive
      cases hpositive
      rfl
    · rename_i hpositive _
      cases hpositive
      rw [hbound]
      rfl

theorem checkDirection_text (d : Direction) : checkDirection (.str d.text) = .ok d := by
  cases d <;> rfl

theorem checkGroupBy_str {path : String} (hne : path ≠ "") (htrimmed : trimBlank path = path) :
    checkGroupBy (.str path) = .ok (some path) := by
  have hpath : checkOptionalText (.str path) = .ok (some path) := rfl
  rw [checkGroupBy, hpath, ok_bind]
  simp only [htrimmed, if_neg hne]
  rfl

theorem Accepted.checkSort_str (h : Accepted maxLimit given p) {text : String} (htext : p.sort = some text) :
    checkSort (.str text) = .ok (.ok (some text)) := by
  refine checkSort_eq_ok_iff.2 ⟨rfl, fun hopens => ?_⟩
  obtain ⟨entries, hread⟩ := h.exists_object_of_sort htext hopens
  exact ⟨_, hread⟩

/-! ## Parameters as a request -/

theorem nodup_keys_entries (p : Parameters) : (Entries.keys p.entries).Nodup := by
  have hkeys : Entries.keys p.entries = ["page", "limit", "order", "fields", "sort", "query", "document", "pagination",
    "count", "filter", "group_by"] := rfl
  rw [hkeys]
  decide

theorem lookup?_withDefaults_of_mem (hnodup : (Entries.keys given).Nodup) {name : String} {v : Value}
    (hmem : (name, v) ∈ given) (hv : isGiven (name, v) = true) :
    Value.lookup? name (withDefaults settings given) = some v := by
  obtain ⟨before, after, rfl⟩ := List.append_of_mem hmem
  rw [Entries.keys, List.map_append, List.map_cons] at hnodup
  exact lookup?_withDefaults_of_last hv (List.nodup_cons.1 (List.nodup_append.1 hnodup).2.1).1

theorem lookup?_withDefaults_of_null (hnodup : (Entries.keys given).Nodup) {name : String} (hmem : (name, .null) ∈ given)
    (hlimit : name ≠ "limit") (horder : name ≠ "order") : Value.lookup? name (withDefaults settings given) = none := by
  have hnone : name ∉ Entries.keys (given.filter isGiven) := by
    intro hname
    obtain ⟨⟨name, v⟩, hkept, rfl⟩ := List.mem_map.1 hname
    rw [List.mem_filter] at hkept
    have hnull := Value.eq_of_mem_of_keys hnodup hkept.1 hmem rfl
    rw [hnull] at hkept
    cases hkept.2
  rw [withDefaults_eq, Value.lookup?_foldl_insert_of_notMem _ hnone]
  simp [Value.lookup?, Entries.find?, Ne.symm hlimit, Ne.symm horder]

theorem lookup?_entries {name : String} {v : Value} (hmem : (name, v) ∈ p.entries) (hv : isGiven (name, v) = true) :
    Value.lookup? name (withDefaults settings p.entries) = some v :=
  lookup?_withDefaults_of_mem (nodup_keys_entries p) hmem hv

theorem lookup?_entries_optional {name : String} {text : Option String} (hmem : (name, textOrNull text) ∈ p.entries)
    (hlimit : name ≠ "limit") (horder : name ≠ "order") :
    Value.lookup? name (withDefaults settings p.entries) = text.map .str := by
  cases text with
  | none => exact lookup?_withDefaults_of_null (nodup_keys_entries p) hmem hlimit horder
  | some t => exact lookup?_entries hmem rfl

theorem checked_of_lookup? {α : Type} {given : List (String × Value)} {name : String} {absent a : α}
    {check : Value → Except Rejection α} {v : Value} (hlookup : Value.lookup? name given = some v) (h : check v = .ok a) :
    checked given name absent check = .valid a :=
  checked_eq_valid_iff.2 (.inr ⟨v, hlookup, h⟩)

theorem checked_of_optional {given : List (String × Value)} {name : String} {text : Option String}
    {check : Value → Except Rejection (Option String)} (hlookup : Value.lookup? name given = text.map .str)
    (h : ∀ t, text = some t → check (.str t) = .ok (some t)) : checked given name none check = .valid text := by
  cases text with
  | none => exact checked_eq_valid_iff.2 (.inl ⟨hlookup, rfl⟩)
  | some t => exact checked_of_lookup? hlookup (h t rfl)

theorem Accepted.settled (h : Accepted settings.maxLimit (withDefaults settings given) p) :
    Accepted settings.maxLimit (withDefaults settings p.entries) p := by
  have hbound := h.limit_bounded (isSome_lookup?_limit settings given)
  -- the path to group by stands under its long name alone
  have hshort : Value.lookup? "groupBy" (withDefaults settings p.entries) = none := by
    rw [withDefaults_eq, Value.lookup?_foldl_insert_of_notMem]
    · rfl
    · intro hkey
      have hkeys : "groupBy" ∈ Entries.keys p.entries := (List.filter_sublist.map _).subset hkey
      simp [Entries.keys, entries] at hkeys
  have hgroup : groupByName (withDefaults settings p.entries) = "group_by" := by
    rw [groupByName, hshort]
    rfl
  constructor
  case page => exact checked_of_lookup? (lookup?_entries (by simp [entries]) rfl) (checkPositive_int h.one_le_page)
  case limit =>
    have hlimit : Value.lookup? "limit" (withDefaults settings p.entries) = some (.int p.limit) :=
      lookup?_entries (by simp [entries]) rfl
    exact checkedM_eq_valid_iff.2 (.inr ⟨_, hlimit, checkLimit_int h.one_le_limit hbound⟩)
  case order => exact checked_of_lookup? (lookup?_entries (by simp [entries]) rfl) (checkDirection_text p.order)
  case fields =>
    exact checked_of_optional (lookup?_entries_optional (by simp [entries]) (by decide) (by decide)) fun _ _ => rfl
  case sort =>
    have hsort : Value.lookup? "sort" (withDefaults settings p.entries) = p.sort.map .str :=
      lookup?_entries_optional (by simp [entries]) (by decide) (by decide)
    rw [checkedM_eq_valid_iff, hsort]
    cases htext : p.sort with
    | none => exact .inl ⟨rfl, rfl⟩
    | some text => exact .inr ⟨_, rfl, h.checkSort_str htext⟩
  case query => exact checked_of_lookup? (lookup?_entries (v := .str p.query) (by simp [entries]) rfl) rfl
  case document => exact checked_of_lookup? (lookup?_entries (v := .bool p.document) (by simp [entries]) rfl) rfl
  case pagination => exact checked_of_lookup? (lookup?_entries (v := .bool p.pagination) (by simp [entries]) rfl) rfl
  case count => exact checked_of_lookup? (lookup?_entries (v := .bool p.count) (by simp [entries]) rfl) rfl
  case filter =>
    exact checked_of_optional (lookup?_entries_optional (by simp [entries]) (by decide) (by decide)) fun _ _ => rfl
  case groupBy =>
    rw [hgroup]
    refine checked_of_optional (lookup?_entries_optional (by simp [entries]) (by decide) (by decide)) fun path hpath => ?_
    exact checkGroupBy_str (h.of_groupBy hpath).1 (h.of_groupBy hpath).2
  case combination => exact h.combination

/-- **Accepted parameters are settled**: given as a request of their own under the same settings they are accepted without
a change, and what that request compiles to is what they compile to. -/
theorem ofRequest_entries (h : ofRequest settings given = .ok p) :
    ofRequest settings p.entries = .ok p ∧ ∀ (e : Endpoint) (model : String) (searchFields : List String),
      (ofRequest settings p.entries >>= fun q => e.compile model q searchFields) = e.compile model p searchFields := by
  have hsettled : ofRequest settings p.entries = .ok p := ofRequest_eq_ok_iff.2 (ofRequest_eq_ok_iff.1 h).settled
  refine ⟨hsettled, fun e model searchFields => ?_⟩
  rw [hsettled, ok_bind]

/-- The page, a flag and the path to group by were other values in the request, and the limit was null. -/
theorem ofRequest_entries_shelf :
    ofRequest Endpoint.shelfSettings Endpoint.shelfRequest = .ok Endpoint.shelfParameters ∧
      ofRequest Endpoint.shelfSettings Endpoint.shelfParameters.entries = .ok Endpoint.shelfParameters ∧
      Endpoint.shelfParameters.entries =
        [("page", .int 3), ("limit", .int 20), ("order", .str "desc"), ("fields", .null),
          ("sort", .str "\x7b\"name\": \"asc\"\x7d"), ("query", .str ""), ("document", .bool true),
          ("pagination", .bool true), ("count", .bool false), ("filter", .null), ("group_by", .str "vendor.name")] :=
  ⟨Endpoint.ofRequest_shelfRequest, (ofRequest_entries Endpoint.ofRequest_shelfRequest).1, rfl⟩

end ListQuery.Parameters
