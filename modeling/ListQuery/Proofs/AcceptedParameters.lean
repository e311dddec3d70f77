import ListQuery.Proofs.Success
import ListQuery.Query.Descriptor
import ListQuery.Request.Parameters
/-!
# Accepted parameters

Parameters are accepted when each of them passed its own check and the combination is allowed.  Main statement:
`check_eq_valid_iff`, which takes the check of a request apart once and for all.  A check that accepts a parameter settles
what is later done with it: `exists_ordering_eq_ok` (an accepted sort can be read again as an ordering).
-/
namespace ListQuery

namespace Checked

variable {α β : Type}

@[simp] theorem map_valid (g : α → β) (a : α) : g <$> valid a = valid (g a) := rfl

@[simp] theorem valid_seq_valid (g : α → β) (a : α) : valid g <*> valid a = valid (g a) := rfl

theorem seq_eq_valid_iff {f : Checked (α → β)} {x : Checked α} {b : β} :
    f <*> x = valid b ↔ ∃ g a, f = valid g ∧ x = valid a ∧ g a = b := by
  show f.seq x = valid b ↔ _
  cases f <;> cases x <;> simp [seq]

theorem map_eq_valid_iff {g : α → β} {x : Checked α} {b : β} : g <$> x = valid b ↔ ∃ a, x = valid a ∧ g a = b := by
  show (valid g).seq x = valid b ↔ _
  cases x <;> simp [seq]

theorem toExcept_eq_ok_iff {ε : Type} {error : List Problem → ε} {x : Checked α} {a : α} :
    x.toExcept error = .ok a ↔ x = valid a := by
  cases x <;> simp [toExcept]

theorem ofExcept_eq_valid_iff {name : String} {x : Except Rejection α} {a : α} :
    ofExcept name x = valid a ↔ x = .ok a := by
  cases x <;> simp [ofExcept]

end Checked

namespace Parameters

/-- **Accepted parameters**: every check of a request passed and gave this value, and the values go together. -/
structure Accepted (maxLimit : Value) (given : List (String × Value)) (p : Parameters) : Prop where
  page : checked given "page" 1 checkPositive = .valid p.page
  limit : checkedM given "limit" 10 (checkLimit maxLimit) = .ok (.valid p.limit)
  order : checked given "order" .desc checkDirection = .valid p.order
  fields : checked given "fields" none checkOptionalText = .valid p.fields
  sort : checkedM given "sort" none checkSort = .ok (.valid p.sort)
  query : checked given "query" "" checkText = .valid p.query
  document : checked given "document" false checkFlag = .valid p.document
  pagination : checked given "pagination" false checkFlag = .valid p.pagination
  count : checked given "count" false checkFlag = .valid p.count
  filter : checked given "filter" none checkOptionalText = .valid p.filter
  groupBy : checked given (groupByName given) none checkGroupBy = .valid p.groupBy
  combination : combination? p = none

theorem mk_eq_valid_iff {page limit : Checked Int} {order : Checked Direction}
    {fields sort filter groupBy : Checked (Option String)}
    {query : Checked String} {document pagination count : Checked Bool} {p : Parameters} :
    Parameters.mk <$> page <*> limit <*> order <*> fields <*> sort <*> query <*> document <*> pagination <*> count <*>
        filter <*> groupBy = .valid p ↔
      page = .valid p.page ∧ limit = .valid p.limit ∧ order = .valid p.order ∧ fields = .valid p.fields ∧
        sort = .valid p.sort ∧ query = .valid p.query ∧ document = .valid p.document ∧ pagination = .valid p.pagination ∧
        count = .valid p.count ∧ filter = .valid p.filter ∧ groupBy = .valid p.groupBy := by
  simp only [Checked.seq_eq_valid_iff, Checked.map_eq_valid_iff]
  constructor
  · rintro ⟨_, _, ⟨_, _, ⟨_, _, ⟨_, _, ⟨_, _, ⟨_, _, ⟨_, _, ⟨_, _, ⟨_, _, ⟨_, _, ⟨_, hpage, rfl⟩, hlimit, rfl⟩, horder, rfl⟩,
      hfields, rfl⟩, hsort, rfl⟩, hquery, rfl⟩, hdocument, rfl⟩, hpagination, rfl⟩, hcount, rfl⟩, hfilter, rfl⟩,
      hgroupBy, rfl⟩
    exact ⟨hpage, hlimit, horder, hfields, hsort, hquery, hdocument, hpagination, hcount, hfilter, hgroupBy⟩
  · rintro ⟨rfl, rfl, rfl, rfl, rfl, rfl, rfl, rfl, rfl, rfl, rfl⟩
    exact ⟨_, _, ⟨_, _, ⟨_, _, ⟨_, _, ⟨_, _, ⟨_, _, ⟨_, _, ⟨_, _, ⟨_, _, ⟨_, _, ⟨_, rfl, rfl⟩, rfl, rfl⟩, rfl, rfl⟩,
      rfl, rfl⟩, rfl, rfl⟩, rfl, rfl⟩, rfl, rfl⟩, rfl, rfl⟩, rfl, rfl⟩, rfl, rfl⟩, rfl, rfl⟩

/-- **A request is accepted exactly if each parameter passes on its own and the combination is allowed.** -/
theorem check_eq_valid_iff {maxLimit : Value} {given : List (String × Value)} {p : Parameters} :
    check maxLimit given = .ok (.valid p) ↔ Accepted maxLimit given p := by
  simp only [check, bind_eq_ok_iff]
  constructor
  · rintro ⟨limit, hlimit, sort, hsort, h⟩
    split at h
    · rename_i q hq
      split at h
      · rename_i hcombination
        obtain rfl : q = p := by simpa using h
        obtain ⟨hpage, rfl, horder, hfields, rfl, hquery, hdocument, hpagination, hcount, hfilter, hgroupBy⟩ :=
          mk_eq_valid_iff.1 hq
        exact ⟨hpage, hlimit, horder, hfields, hsort, hquery, hdocument, hpagination, hcount, hfilter, hgroupBy,
          hcombination⟩
      · simp at h
    · rename_i hinvalid
      exact absurd (by simpa using h) (hinvalid p)
  · intro h
    have hvalid := mk_eq_valid_iff.2 ⟨h.page, rfl, h.order, h.fields, rfl, h.query, h.document, h.pagination, h.count,
      h.filter, h.groupBy⟩
    exact ⟨_, h.limit, _, h.sort, by simp only [hvalid, h.combination]; rfl⟩

theorem ofRequest_eq_ok_iff {settings : Settings} {given : List (String × Value)} {p : Parameters} :
    ofRequest settings given = .ok p ↔ Accepted settings.maxLimit (withDefaults settings given) p := by
  simp only [ofRequest, bind_eq_ok_iff, Checked.toExcept_eq_ok_iff, exists_eq_right, check_eq_valid_iff]

/-! ## What an accepted value promises -/

theorem checked_eq_valid_iff {α : Type} {given : List (String × Value)} {name : String} {absent a : α}
    {check : Value → Except Rejection α} :
    checked given name absent check = .valid a ↔
      (Value.lookup? name given = none ∧ absent = a) ∨ ∃ v, Value.lookup? name given = some v ∧ check v = .ok a := by
  unfold checked
  cases Value.lookup? name given with
  | none => simp
  | some v => simp [Checked.ofExcept_eq_valid_iff]

theorem checkedM_eq_valid_iff {α : Type} {given : List (String × Value)} {name : String} {absent a : α}
    {check : Value → Except Fault (Except Rejection α)} :
    checkedM given name absent check = .ok (.valid a) ↔
      (Value.lookup? name given = none ∧ absent = a) ∨ ∃ v, Value.lookup? name given = some v ∧ check v = .ok (.ok a) := by
  unfold checkedM
  cases Value.lookup? name given with
  | none => simp
  | some v =>
    cases hv : check v with
    | error => simp [Except.map, hv]
    | ok x => simp [Except.map, hv, Checked.ofExcept_eq_valid_iff]

theorem checkSort_of_read {text : String} {document : Value} (h : Json.read text = .ok document) :
    checkSort (.str text) = .ok (.ok (some text)) := by
  rw [checkSort]
  split
  · rename_i given hgiven
    obtain rfl : text = given := by simpa [checkOptionalText, checkText, Except.map] using hgiven
    rw [h]
    split <;> rfl
  · rename_i hother
    exact absurd rfl (hother text)

theorem readable_of_checkSort {v : Value} {sort : Option String} (h : checkSort v = .ok (.ok sort)) {text : String}
    (ht : sort = some text) (hopens : text.toList.head? = some '{') : ∃ document, Json.read text = .ok document := by
  unfold checkSort at h
  split at h
  · rename_i given hgiven
    split at h
    · rename_i hhead
      split at h
      · rename_i document hread
        obtain rfl : given = text := by simpa [ht] using h
        exact ⟨document, hread⟩
      all_goals simp at h
    · rename_i hhead
      obtain rfl : given = text := by simpa [ht] using h
      exact absurd hopens hhead
  · rename_i hother
    exact absurd (by simpa [ht] using h) (hother text)

theorem Accepted.exists_ordering_eq_ok {maxLimit : Value} {given : List (String × Value)} {p : Parameters}
    (h : Accepted maxLimit given p) (direction : String) :
    ∃ orderBy, ordering direction (textOrNull p.sort) = .ok orderBy := by
  cases hs : p.sort with
  | none => exact ⟨_, rfl⟩
  | some text =>
    rw [textOrNull, ordering]
    split
    · exact ⟨_, rfl⟩
    split
    · rename_i t hopens
      have hsort := h.sort
      rw [hs, checkedM_eq_valid_iff] at hsort
      obtain ⟨-, hnone⟩ | ⟨v, -, hv⟩ := hsort
      · cases hnone
      · obtain ⟨document, hread⟩ := readable_of_checkSort hv rfl hopens
        exact ⟨document, by rw [hread]; rfl⟩
    · exact ⟨_, rfl⟩

end Parameters
end ListQuery
