import ListQuery.Proofs.CompileOutcome
/-!
# What accepted parameters satisfy

The checks of a request are spread over its parameters, the settings supply values that nobody checked before, and the
combination is checked on values that were already changed.  What comes out is sound all the same.  A default limit goes
through the check of the limit like any other (`isSome_lookup?_limit`), a path to group by is trimmed once and for all
(`trimBlank_trimBlank`), and a sort that opens an object and can be read is an object (`Json.exists_map_of_read`).  Main
statement: `Endpoint.ofRequest_sound`.
-/
namespace ListQuery

namespace Json

theorem exists_map_of_readWith {fuel : Nat} {inner : Option (Reader Value)} {cs rest : List Char} {v : Value}
    (h : readWith fuel inner ('{' :: cs) = .ok (v, rest)) : ∃ entries, v = .map entries := by
  simp only [readWith] at h
  split at h
  · cases h
  · rw [pure_eq_ok, Except.ok.injEq, Prod.mk.injEq] at h
    exact ⟨[], h.1.symm⟩
  · simp only [bind_eq_ok_iff, pure_eq_ok, Except.ok.injEq, Prod.mk.injEq] at h
    obtain ⟨⟨entries, behind⟩, -, rfl, -⟩ := h
    exact ⟨_, rfl⟩

theorem exists_map_of_readValue {fuel depth : Nat} {cs rest : List Char} {v : Value}
    (h : readValue fuel depth ('{' :: cs) = .ok (v, rest)) : ∃ entries, v = .map entries := by
  cases depth <;> exact exists_map_of_readWith h

theorem exists_map_of_read {text : String} (hopens : text.toList.head? = some '{') {document : Value}
    (h : read text = .ok document) : ∃ entries, document = .map entries := by
  obtain ⟨cs, hcs⟩ := List.head?_eq_some_iff.1 hopens
  have hskip : skipBlank ('{' :: cs) = '{' :: cs := rfl
  unfold read at h
  rw [hcs] at h
  cases hread : readChars ('{' :: cs) with
  | error => rw [hread] at h; cases h
  | ok v =>
    rw [hread] at h
    cases h
    unfold readChars at hread
    split at hread
    · cases hread
    · rw [bind_eq_ok_iff] at hread
      obtain ⟨⟨v, rest⟩, hvalue, hrest⟩ := hread
      rw [hskip] at hvalue
      obtain ⟨entries, rfl⟩ := exists_map_of_readValue hvalue
      dsimp only at hrest
      split at hrest
      · exact ⟨entries, (Except.ok.inj hrest).symm⟩
      · cases hrest

end Json

namespace Parameters

variable {maxLimit : Value} {settings : Settings} {given : List (String × Value)} {p : Parameters}

/-! ## What single checks promise -/

theorem one_le_of_checkPositive {v : Value} {n : Int} (h : checkPositive v = .ok n) : 1 ≤ n := by
  rw [checkPositive, bind_eq_ok_iff] at h
  obtain ⟨m, -, hm⟩ := h
  split at hm
  · cases hm
  · cases hm
    omega

theorem of_checkLimit {v : Value} {n : Int} (h : checkLimit maxLimit v = .ok (.ok n)) :
    1 ≤ n ∧ (maxLimit = .null ∨ exceeds n maxLimit = .ok false) := by
  unfold checkLimit at h
  split at h
  · cases h
  · rename_i hpositive
    cases h
    exact ⟨one_le_of_checkPositive hpositive, .inl rfl⟩
  · rename_i m hpositive _
    rw [bind_eq_ok_iff] at h
    obtain ⟨above, hexceeds, h⟩ := h
    cases above with
    | true => cases h
    | false =>
      cases h
      exact ⟨one_le_of_checkPositive hpositive, .inr hexceeds⟩

theorem le_of_exceeds {n bound : Int} (hbound : maxLimit.asInt? = some bound) (h : exceeds n maxLimit = .ok false) :
    n ≤ bound := by
  cases maxLimit with
  | int m =>
    cases hbound
    simpa [exceeds] using h
  | bool b =>
    cases hbound
    simpa [exceeds] using h
  | _ => cases hbound

theorem of_checkGroupBy {v : Value} {path : String} (h : checkGroupBy v = .ok (some path)) :
    path ≠ "" ∧ trimBlank path = path := by
  rw [checkGroupBy, bind_eq_ok_iff] at h
  obtain ⟨given, -, h⟩ := h
  split at h
  · cases h
  · dsimp only at h
    split at h
    · cases h
    · rename_i hne
      cases h
      exact ⟨hne, trimBlank_trimBlank _⟩

theorem of_combination?_eq_none (h : combination? p = none) :
    (p.document = true ∨ p.pagination = true ∨ p.count = true) ∧ (p.pagination = true → p.document = true) ∧
      (p.groupBy ≠ none → p.document = true) := by
  unfold combination? at h
  split at h
  · cases h
  rename_i hpart
  split at h
  · cases h
  rename_i hpagination
  split at h
  · cases h
  rename_i hgroup
  refine ⟨?_, ?_, ?_⟩
  · simpa [or_iff_not_imp_left] using hpart
  · simpa using hpagination
  · simpa [Option.ne_none_iff_isSome] using hgroup

/-! ## Defaults -/

theorem isSome_lookup?_foldl_insert {name : String} : ∀ (entries base : List (String × Value)),
    (Value.lookup? name base).isSome = true →
      (Value.lookup? name (entries.foldl (fun m e => Value.insert e.1 e.2 m) base)).isSome = true
  | [], _, h => h
  | e :: entries, base, h => by
    refine isSome_lookup?_foldl_insert entries _ ?_
    rw [Value.lookup?_insert]
    split
    · rfl
    · exact h

theorem isSome_lookup?_limit (settings : Settings) (given : List (String × Value)) :
    (Value.lookup? "limit" (withDefaults settings given)).isSome = true :=
  isSome_lookup?_foldl_insert _ _ rfl

/-! ## Accepted requests -/

theorem Accepted.one_le_page (h : Accepted maxLimit given p) : 1 ≤ p.page := by
  obtain ⟨-, hp⟩ | ⟨v, -, hv⟩ := checked_eq_valid_iff.1 h.page
  · omega
  · exact one_le_of_checkPositive hv

theorem Accepted.one_le_limit (h : Accepted maxLimit given p) : 1 ≤ p.limit := by
  obtain ⟨-, hp⟩ | ⟨v, -, hv⟩ := checkedM_eq_valid_iff.1 h.limit
  · omega
  · exact (of_checkLimit hv).1

theorem Accepted.limit_bounded (h : Accepted maxLimit given p) (hgiven : (Value.lookup? "limit" given).isSome = true) :
    maxLimit = .null ∨ exceeds p.limit maxLimit = .ok false := by
  obtain ⟨hnone, -⟩ | ⟨v, -, hv⟩ := checkedM_eq_valid_iff.1 h.limit
  · rw [hnone] at hgiven
    cases hgiven
  · exact (of_checkLimit hv).2

theorem Accepted.of_groupBy (h : Accepted maxLimit given p) {path : String} (hpath : p.groupBy = some path) :
    path ≠ "" ∧ trimBlank path = path := by
  have hgroup := h.groupBy
  rw [hpath, checked_eq_valid_iff] at hgroup
  obtain ⟨-, hnone⟩ | ⟨v, -, hv⟩ := hgroup
  · cases hnone
  · exact of_checkGroupBy hv

theorem Accepted.exists_object_of_sort (h : Accepted maxLimit given p) {text : String} (htext : p.sort = some text)
    (hopens : text.toList.head? = some '{') : ∃ entries, Json.read text = .ok (.map entries) := by
  have hsort := h.sort
  rw [htext, checkedM_eq_valid_iff] at hsort
  obtain ⟨-, hnone⟩ | ⟨v, -, hv⟩ := hsort
  · cases hnone
  · obtain ⟨document, hread⟩ := readable_of_checkSort hv rfl hopens
    obtain ⟨entries, rfl⟩ := Json.exists_map_of_read hopens hread
    exact ⟨entries, hread⟩

structure Sound (settings : Settings) (p : Parameters) : Prop where
  page : 1 ≤ p.page
  limit : 1 ≤ p.limit
  bounded : settings.maxLimit = .null ∨ exceeds p.limit settings.maxLimit = .ok false
  within_bound : ∀ bound, settings.maxLimit.asInt? = some bound → p.limit ≤ bound
  order : p.order.text = "asc" ∨ p.order.text = "desc"
  some_part : p.document = true ∨ p.pagination = true ∨ p.count = true
  document_of_pagination : p.pagination = true → p.document = true
  document_of_groupBy : p.groupBy ≠ none → p.document = true
  groupBy_trimmed : ∀ path, p.groupBy = some path → path ≠ "" ∧ trimBlank path = path
  sort_object : ∀ text, p.sort = some text → text.toList.head? = some '{' →
    ∃ entries, Json.read text = .ok (.map entries)
  skip : 0 ≤ p.skip

theorem skip_nonneg (hpage : 1 ≤ p.page) (hlimit : 1 ≤ p.limit) : 0 ≤ p.skip :=
  Int.mul_nonneg (by omega) (by omega)

end Parameters

namespace Endpoint

variable {e : Endpoint} {model : String} {searchFields : List String} {p : Parameters} {d : Descriptor}

theorem window_of_compile (h : e.compile model p searchFields = .ok d) : d.skip = .int p.skip ∧ d.take = .int p.limit := by
  rw [compile, bind_eq_ok_iff] at h
  obtain ⟨condition, -, h⟩ := h
  rw [Descriptor.findMany, bind_eq_ok_iff] at h
  obtain ⟨orderBy, -, h⟩ := h
  cases h
  exact ⟨rfl, rfl⟩

/-- **Accepted parameters are sound**, and what they compile to skips whole pages. -/
theorem ofRequest_sound {settings : Settings} {given : List (String × Value)}
    (h : Parameters.ofRequest settings given = .ok p) :
    Parameters.Sound settings p ∧ ∀ (e : Endpoint) (model : String) (searchFields : List String) (d : Descriptor),
      e.compile model p searchFields = .ok d →
        ∃ skip take : Int, d.skip = .int skip ∧ d.take = .int take ∧ 1 ≤ take ∧ 0 ≤ skip ∧ take ∣ skip := by
  have accepted := Parameters.ofRequest_eq_ok_iff.1 h
  have hbounded := accepted.limit_bounded (Parameters.isSome_lookup?_limit settings given)
  obtain ⟨hpart, hpagination, hgroup⟩ := Parameters.of_combination?_eq_none accepted.combination
  have hskip : 0 ≤ p.skip := Parameters.skip_nonneg accepted.one_le_page accepted.one_le_limit
  constructor
  · constructor
    case page => exact accepted.one_le_page
    case limit => exact accepted.one_le_limit
    case bounded => exact hbounded
    case within_bound =>
      intro bound hbound
      obtain hnull | hexceeds := hbounded
      · rw [hnull] at hbound
        cases hbound
      · exact Parameters.le_of_exceeds hbound hexceeds
    case order => cases p.order <;> simp [Direction.text]
    case some_part => exact hpart
    case document_of_pagination => exact hpagination
    case document_of_groupBy => exact hgroup
    case groupBy_trimmed => exact fun path => accepted.of_groupBy
    case sort_object => exact fun text => accepted.exists_object_of_sort
    case skip => exact hskip
  · intro e model searchFields d hd
    obtain ⟨hs, ht⟩ := window_of_compile hd
    exact ⟨p.skip, p.limit, hs, ht, accepted.one_le_limit, hskip, Int.dvd_mul_left _ _⟩

def shelfSettings : Settings := { defaultLimit := .int 20, maxLimit := .int 50 }

/-- A request for the third page of rows by vendor, which leaves the limit to the settings. -/
def shelfRequest : List (String × Value) :=
  [("page", .str " +3.0"), ("limit", .null), ("document", .str "true"), ("pagination", .bool true),
    ("groupBy", .str "\tvendor.name "), ("sort", .str "\x7b\"name\": \"asc\"\x7d")]

def shelfParameters : Parameters where
  page := 3
  limit := 20
  order := .desc
  fields := none
  sort := some "\x7b\"name\": \"asc\"\x7d"
  query := ""
  document := true
  pagination := true
  count := false
  filter := none
  groupBy := some "vendor.name"

theorem ofRequest_shelfRequest : Parameters.ofRequest shelfSettings shelfRequest = .ok shelfParameters := by
  have hread : (Json.read "\x7b\"name\": \"asc\"\x7d").isOk = true := by decide +kernel
  obtain ⟨document, hdocument⟩ := exists_eq_ok_of_isOk hread
  rw [Parameters.ofRequest_eq_ok_iff]
  constructor
  case sort => exact Parameters.checkedM_eq_valid_iff.2 (.inr ⟨_, rfl, Parameters.checkSort_of_read hdocument⟩)
  all_goals rfl

/-- The limit comes from the settings, the path was trimmed, and two pages are skipped. -/
theorem ofRequest_sound_shelf :
    Parameters.ofRequest shelfSettings shelfRequest = .ok shelfParameters ∧ shelfParameters.limit ≤ 50 ∧
      trimBlank "vendor.name" = "vendor.name" ∧
      ∃ d, compile ⟨.orchard, shelfSettings⟩ "Tree" shelfParameters [] = .ok d ∧
        ∃ skip take : Int, d.skip = .int skip ∧ d.take = .int take ∧ 1 ≤ take ∧ 0 ≤ skip ∧ take ∣ skip := by
  have accepted := ofRequest_shelfRequest
  obtain ⟨hsound, hwindow⟩ := ofRequest_sound accepted
  have hcompile : ∃ d, compile ⟨.orchard, shelfSettings⟩ "Tree" shelfParameters [] = .ok d :=
    exists_compile_eq_ok (by decide) accepted (found_eq_nil (.inr rfl))
  obtain ⟨d, hd⟩ := hcompile
  exact ⟨accepted, hsound.within_bound 50 rfl, (hsound.groupBy_trimmed "vendor.name" rfl).2, d, hd, hwindow _ _ _ _ hd⟩

end Endpoint
end ListQuery
