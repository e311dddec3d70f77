import ListQuery.Proofs.JsonReading
import ListQuery.Proofs.SoundParameters
/-!
# A sort is accepted exactly if it orders

A sort is read twice, and neither reader knows of the other: the check of a request forgets what it read, and the ordering
does not ask whether it was checked.  Main statements: `ordering_eq_ok_iff` (what a text orders by),
`Accepted.iff_of_lookup` (a sort is checked apart from all other parameters), and from these `ofRequest_sort`.
-/
namespace ListQuery

/-! ## Lookups in a request -/

namespace Value

theorem lookup?_foldl_insert_congr {name : String} : ∀ (entries : List (String × Value))
    {base other : List (String × Value)},
    lookup? name base = lookup? name other →
      lookup? name (entries.foldl (fun m e => insert e.1 e.2 m) base) =
        lookup? name (entries.foldl (fun m e => insert e.1 e.2 m) other)
  | [], _, _, h => h
  | (k, v) :: entries, base, other, h => by
    refine lookup?_foldl_insert_congr entries ?_
    rw [lookup?_insert, lookup?_insert, h]

theorem lookup?_foldl_insert_of_notMem {name : String} : ∀ {entries : List (String × Value)} (base : List (String × Value)),
    name ∉ Entries.keys entries → lookup? name (entries.foldl (fun m e => insert e.1 e.2 m) base) = lookup? name base
  | [], _, _ => rfl
  | (k, v) :: entries, base, h => by
    rw [Entries.keys, List.map_cons, List.mem_cons, not_or] at h
    rw [List.foldl_cons, lookup?_foldl_insert_of_notMem _ h.2, lookup?_insert, if_neg h.1]

end Value

namespace Parameters

variable {maxLimit : Value} {settings : Settings} {given sorted before after : List (String × Value)} {p q : Parameters}

theorem lookup?_withDefaults_of_ne {name : String} (hname : name ≠ "sort") (text : String) :
    Value.lookup? name (withDefaults settings (before ++ ("sort", .str text) :: after)) =
      Value.lookup? name (withDefaults settings (before ++ after)) := by
  rw [withDefaults, withDefaults, List.filter_append, List.filter_append, List.filter_cons_of_pos rfl, List.foldl_append,
    List.foldl_append, List.foldl_cons]
  refine Value.lookup?_foldl_insert_congr _ ?_
  rw [Value.lookup?_insert, if_neg hname]

/-- Null counts as not given. -/
def isGiven (e : String × Value) : Bool :=
  match e.2 with
  | .null => false
  | _ => true

theorem withDefaults_eq (settings : Settings) (given : List (String × Value)) :
    withDefaults settings given = (given.filter isGiven).foldl (fun m e => Value.insert e.1 e.2 m)
      [("limit", settings.defaultLimit), ("order", settings.defaultOrder)] := rfl

theorem lookup?_withDefaults_of_last {name : String} {v : Value} (hv : isGiven (name, v) = true)
    (hlast : name ∉ Entries.keys after) :
    Value.lookup? name (withDefaults settings (before ++ (name, v) :: after)) = some v := by
  rw [withDefaults_eq, List.filter_append, List.filter_cons_of_pos hv, List.foldl_append, List.foldl_cons,
    Value.lookup?_foldl_insert_of_notMem, Value.lookup?_insert, if_pos rfl]
  exact fun hname => hlast ((List.filter_sublist.map _).subset hname)

theorem lookup?_withDefaults_sort (unsorted : "sort" ∉ Entries.keys (before ++ after)) (text : String) :
    Value.lookup? "sort" (withDefaults settings (before ++ ("sort", .str text) :: after)) = some (.str text) := by
  rw [Entries.keys, List.map_append, List.mem_append, not_or] at unsorted
  exact lookup?_withDefaults_of_last rfl unsorted.2

/-! ## The sort among the parameters -/

theorem Accepted.unique (hp : Accepted maxLimit given p) (hq : Accepted maxLimit given q) : p = q := by
  have h := (check_eq_valid_iff.2 hp).symm.trans (check_eq_valid_iff.2 hq)
  rwa [Except.ok.injEq, Checked.valid.injEq] at h

theorem Accepted.with_sort (h : Accepted maxLimit given p)
    (same : ∀ name, name ≠ "sort" → Value.lookup? name sorted = Value.lookup? name given) {sort : Option String}
    (hsort : checkedM sorted "sort" none checkSort = .ok (.valid sort)) :
    Accepted maxLimit sorted { p with sort := sort } := by
  have hgroup : groupByName sorted = groupByName given := by
    unfold groupByName
    rw [same "groupBy" (by decide)]
  have hne : groupByName given ≠ "sort" := by
    unfold groupByName
    split <;> decide
  constructor
  case sort => exact hsort
  case combination => exact h.combination
  case limit => rw [checkedM, same "limit" (by decide)]; exact h.limit
  case groupBy => rw [hgroup, checked, same _ hne]; exact h.groupBy
  case page => rw [checked, same "page" (by decide)]; exact h.page
  case order => rw [checked, same "order" (by decide)]; exact h.order
  case fields => rw [checked, same "fields" (by decide)]; exact h.fields
  case query => rw [checked, same "query" (by decide)]; exact h.query
  case document => rw [checked, same "document" (by decide)]; exact h.document
  case pagination => rw [checked, same "pagination" (by decide)]; exact h.pagination
  case count => rw [checked, same "count" (by decide)]; exact h.count
  case filter => rw [checked, same "filter" (by decide)]; exact h.filter

/-- **A sort is checked apart from all other parameters**: next to accepted ones, only the sort decides, and only the sort
is different. -/
theorem Accepted.iff_of_lookup (h : Accepted maxLimit given p)
    (same : ∀ name, name ≠ "sort" → Value.lookup? name sorted = Value.lookup? name given) :
    Accepted maxLimit sorted q ↔
      ∃ sort, checkedM sorted "sort" none checkSort = .ok (.valid sort) ∧ q = { p with sort := sort } := by
  constructor
  · intro hq
    -- with the sort put back, these are parameters of the request that was accepted, which has no others
    have hback : Accepted maxLimit given { q with sort := p.sort } :=
      hq.with_sort (fun name hne => (same name hne).symm) h.sort
    have heq := h.unique hback
    exact ⟨q.sort, hq.sort, by rw [heq]⟩
  · rintro ⟨sort, hsort, rfl⟩
    exact h.with_sort same hsort

/-! ## What a text orders by -/

/-- The ordering that a text asks for: by `id` if it is empty, by the field it names, or the object it holds. -/
inductive Orders (direction text : String) : List (String × Value) → Prop
  | byId : text = "" → Orders direction text [("id", .str direction)]
  | byField : text ≠ "" → text.toList.head? ≠ some '\x7b' → Orders direction text [(text, .str direction)]
  | object {entries : List (String × Value)} : text.toList.head? = some '\x7b' → Json.read text = .ok (.map entries) →
      (Value.map entries).isJson = true → Orders direction text entries

/-- **A text orders by a map, or not at all.** -/
theorem ordering_eq_ok_iff {direction text : String} {orderBy : Value} :
    ordering direction (.str text) = .ok orderBy ↔ ∃ entries, orderBy = .map entries ∧ Orders direction text entries := by
  by_cases hempty : text = ""
  · subst hempty
    constructor
    · intro h
      cases h
      exact ⟨_, rfl, .byId rfl⟩
    · rintro ⟨_, rfl, _ | ⟨hne, -⟩ | ⟨hopens, -, -⟩⟩
      · rfl
      · exact absurd rfl hne
      · cases hopens
  have htruthy : (!(Value.str text).isTruthy) = false := by simpa [Value.isTruthy] using hempty
  by_cases hopens : text.toList.head? = some '\x7b'
  · have hordering : ordering direction (.str text) = (Json.read text).mapError .json := by
      simp only [ordering, htruthy, Bool.false_eq_true, if_false, if_pos hopens]
    rw [hordering]
    constructor
    · intro h
      cases hread : Json.read text with
      | error fault => rw [hread] at h; cases h
      | ok document =>
        rw [hread] at h
        cases h
        obtain ⟨entries, rfl⟩ := Json.exists_map_of_read hopens hread
        exact ⟨entries, rfl, .object hopens hread (Json.isJson_of_read hread)⟩
    · rintro ⟨entries, rfl, hid | ⟨-, hfield⟩ | ⟨-, hread, -⟩⟩
      · exact absurd hid hempty
      · exact absurd hopens hfield
      · rw [hread]
        rfl
  · have hordering : ordering direction (.str text) = .ok (.map [(text, .str direction)]) := by
      simp only [ordering, htruthy, Bool.false_eq_true, if_false, if_neg hopens]
    rw [hordering]
    constructor
    · intro h
      cases h
      exact ⟨_, rfl, .byField hempty hopens⟩
    · rintro ⟨entries, rfl, hid | - | ⟨hobject, -, -⟩⟩
      · exact absurd hid hempty
      · rfl
      · exact absurd hobject hopens

theorem exists_ordering_iff {direction text : String} : (∃ orderBy, ordering direction (.str text) = .ok orderBy) ↔
    (text.toList.head? = some '\x7b' → ∃ document, Json.read text = .ok document) := by
  constructor
  · rintro ⟨orderBy, h⟩ hopens
    obtain ⟨entries, -, rfl | ⟨-, hfield⟩ | ⟨-, hread, -⟩⟩ := ordering_eq_ok_iff.1 h
    · cases hopens
    · exact absurd hopens hfield
    · exact ⟨_, hread⟩
  · intro h
    by_cases hempty : text = ""
    · exact ⟨_, ordering_eq_ok_iff.2 ⟨_, rfl, .byId hempty⟩⟩
    by_cases hopens : text.toList.head? = some '\x7b'
    · obtain ⟨document, hread⟩ := h hopens
      obtain ⟨entries, rfl⟩ := Json.exists_map_of_read hopens hread
      exact ⟨_, ordering_eq_ok_iff.2 ⟨_, rfl, .object hopens hread (Json.isJson_of_read hread)⟩⟩
    · exact ⟨_, ordering_eq_ok_iff.2 ⟨_, rfl, .byField hempty hopens⟩⟩

theorem checkSort_eq_ok_iff {text : String} {sort : Option String} : checkSort (.str text) = .ok (.ok sort) ↔
    sort = some text ∧ (text.toList.head? = some '\x7b' → ∃ document, Json.read text = .ok document) := by
  have hgiven : checkOptionalText (.str text) = .ok (some text) := rfl
  by_cases hopens : text.toList.head? = some '\x7b'
  · simp only [checkSort, hgiven, hopens, true_implies]
    cases Json.read text with
    | ok document => simp [eq_comm]
    | error fault => cases fault <;> simp
  · simp [checkSort, hgiven, hopens, eq_comm]

/-- **A sort is accepted exactly if it orders**, in any direction and however deep its containers stand in each other.
It is put anywhere into a request that is accepted without one.  The parameters keep its text, and what it orders by is a
map; what the map holds is left open for a text that escapes a surrogate without its partner. -/
theorem ofRequest_sort (unsorted : "sort" ∉ Entries.keys (before ++ after))
    (others : ofRequest settings (before ++ after) = .ok p)
    (text direction : String) :
    ((∃ q, ofRequest settings (before ++ ("sort", .str text) :: after) = .ok q) ↔
        ∃ orderBy, ordering direction (.str text) = .ok orderBy) ∧
      ∀ q, ofRequest settings (before ++ ("sort", .str text) :: after) = .ok q →
        q = { p with sort := some text } ∧
          ∃ entries, ordering direction (textOrNull q.sort) = .ok (.map entries) ∧ Orders direction text entries := by
  have hlookup : Value.lookup? "sort" (withDefaults settings (before ++ ("sort", .str text) :: after)) = some (.str text) :=
    lookup?_withDefaults_sort unsorted text
  have hiff : ∀ q, ofRequest settings (before ++ ("sort", .str text) :: after) = .ok q ↔
      q = { p with sort := some text } ∧ (text.toList.head? = some '\x7b' → ∃ document, Json.read text = .ok document) := by
    intro q
    rw [ofRequest_eq_ok_iff,
      (ofRequest_eq_ok_iff.1 others).iff_of_lookup fun name hne => lookup?_withDefaults_of_ne hne text]
    simp only [checkedM_eq_valid_iff, hlookup, Option.some.injEq, exists_eq_left', checkSort_eq_ok_iff]
    constructor
    · rintro ⟨sort, ⟨hnone, -⟩ | ⟨rfl, hread⟩, rfl⟩
      · cases hnone
      · exact ⟨rfl, hread⟩
    · rintro ⟨rfl, hread⟩
      exact ⟨_, .inr ⟨rfl, hread⟩, rfl⟩
  rw [exists_ordering_iff]
  constructor
  · constructor
    · rintro ⟨q, hq⟩
      exact ((hiff q).1 hq).2
    · exact fun hread => ⟨_, (hiff _).2 ⟨rfl, hread⟩⟩
  · intro q hq
    obtain ⟨rfl, hread⟩ := (hiff q).1 hq
    obtain ⟨orderBy, horder⟩ : ∃ orderBy, ordering direction (.str text) = .ok orderBy := exists_ordering_iff.2 hread
    obtain ⟨entries, rfl, horders⟩ := ordering_eq_ok_iff.1 horder
    exact ⟨rfl, entries, horder, horders⟩

def thirdPage : List (String × Value) := [("page", .str " +3.0"), ("limit", .null), ("document", .str "true")]

/-- A sort that holds an object is accepted among other parameters, and one that breaks off inside an object is not. -/
theorem ofRequest_sort_shelf :
    (∃ q, ofRequest Endpoint.shelfSettings (thirdPage ++ ("sort", .str "\x7b\"name\": \"asc\"\x7d") ::
        [("pagination", .bool true)]) = .ok q ∧ q.skip = 40) ∧
      ¬∃ q, ofRequest Endpoint.shelfSettings (thirdPage ++ ("sort", .str "\x7bname") ::
        [("pagination", .bool true)]) = .ok q := by
  have unsorted : "sort" ∉ Entries.keys (thirdPage ++ [("pagination", .bool true)]) := by decide
  have others : ofRequest Endpoint.shelfSettings (thirdPage ++ [("pagination", .bool true)]) =
      .ok { Endpoint.shelfParameters with sort := none, groupBy := none } := by
    rw [ofRequest_eq_ok_iff]
    constructor <;> rfl
  have horders : (ordering "asc" (.str "\x7b\"name\": \"asc\"\x7d")).isOk = true := by decide +kernel
  have hbroken : (ordering "asc" (.str "\x7bname")).isOk = false := by decide +kernel
  constructor
  · have hsort := ofRequest_sort unsorted others "\x7b\"name\": \"asc\"\x7d" "asc"
    obtain ⟨q, hq⟩ := hsort.1.2 (exists_eq_ok_of_isOk horders)
    refine ⟨q, hq, ?_⟩
    rw [(hsort.2 q hq).1]
    rfl
  · intro haccepted
    obtain ⟨orderBy, horder⟩ := (ofRequest_sort unsorted others "\x7bname" "asc").1.1 haccepted
    rw [horder] at hbroken
    cases hbroken

end Parameters
end ListQuery
