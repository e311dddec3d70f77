import ListQuery.Proofs.BucketPartition
/-!
# Rows that share a bucket

Truth values and values that cannot be keys are represented by texts, and what is missing by the unassigned key.  A text
that is written the same as such a representation is the same key, so values of two kinds can share a bucket after all:
`LooksLike` lists the pairs, and there are no others.  Main statement: `shared_bucket`.
-/
namespace ListQuery

namespace Value

/-- Whether a value is its own key: it is there, it can be a key, and it is no truth value. -/
def isOwnKey : Value → Bool
  | null | bool _ => false
  | v => v.isHashable

/-- Values of one kind that have one key. -/
inductive OneKind : Value → Value → Prop
  | missing : OneKind null null
  | truth (b : Bool) : OneKind (bool b) (bool b)
  | ownKeys {v w : Value} (hv : v.isOwnKey = true) (hw : w.isOwnKey = true) (h : v.sameKey w = true) : OneKind v w
  | written {v w : Value} (hv : v.isHashable = false) (hw : w.isHashable = false)
      (h : Json.canonical v = Json.canonical w) : OneKind v w

/-- A value whose representation is the key of a value of another kind. -/
inductive LooksLike (unassigned : Value) : Value → Value → Prop
  | missing {w : Value} (hw : w ≠ null) (h : (w.bucketKey unassigned).sameKey unassigned = true) :
      LooksLike unassigned null w
  | truth (b : Bool) : LooksLike unassigned (bool b) (str (if b then "true" else "false"))
  | written {v : Value} (hv : v.isHashable = false) : LooksLike unassigned v (str (Json.canonical v))

/-! ## Keys of one value -/

variable {u v w : Value}

theorem kind_cases (v : Value) : v = null ∨ (∃ b, v = bool b) ∨ v.isOwnKey = true ∨ v.isHashable = false := by
  cases v with
  | null => exact .inl rfl
  | bool b => exact .inr (.inl ⟨b, rfl⟩)
  | _ => exact .inr (.inr (Bool.eq_false_or_eq_true _))

theorem bucketKey_of_isOwnKey (h : v.isOwnKey = true) : v.bucketKey u = v := by
  cases v with
  | null | bool => cases h
  | _ =>
    unfold bucketKey
    exact if_pos h

theorem bucketKey_of_unhashable (h : v.isHashable = false) : v.bucketKey u = str (Json.canonical v) := by
  cases v with
  | list | set | map | tuple | record =>
    unfold bucketKey
    exact if_neg (ne_true_of_eq_false h)
  | _ => cases h

theorem isHashable_bucketKey (hu : u.isHashable = true) (v : Value) : (v.bucketKey u).isHashable = true := by
  cases v with
  | null => exact hu
  | bool b => rfl
  | _ =>
    unfold bucketKey
    dsimp only
    split
    · rename_i h
      exact h
    · rfl

theorem sameKey_str_iff {s : String} : (str s).sameKey w = true ↔ w = str s := by
  cases w with
  | str t =>
    rw [sameKey, beq_iff_eq, str.injEq]
    exact eq_comm
  | _ => simp [sameKey, sameNumber?, asInt?]

theorem canonicalChars_of_unhashable (h : v.isHashable = false) :
    ∃ c cs, Json.canonicalChars v = c :: cs ∧ (c = '[' ∨ c = '\x7b' ∨ c = '"') := by
  cases v with
  | list items | tuple items => exact ⟨'[', _, rfl, .inl rfl⟩
  | map entries => exact ⟨'\x7b', _, rfl, .inr (.inl rfl)⟩
  | set | record => exact ⟨'"', _, rfl, .inr (.inr rfl)⟩
  | _ => cases h

theorem canonical_ne_boolText (h : v.isHashable = false) (b : Bool) : Json.canonical v ≠ if b then "true" else "false" := by
  obtain ⟨c, cs, hcs, hc⟩ := canonicalChars_of_unhashable h
  intro htext
  have hchars := congrArg String.toList htext
  rw [Json.canonical, hcs, String.toList_ofList] at hchars
  cases b <;> obtain rfl | rfl | rfl := hc <;> cases hchars

/-! ## Keys of two values -/

theorem OneKind.symm (h : OneKind v w) : OneKind w v := by
  cases h with
  | missing => exact .missing
  | truth b => exact .truth b
  | ownKeys hv hw h => exact .ownKeys hw hv (sameKey_symm h)
  | written hv hw h => exact .written hw hv h.symm

theorem OneKind.eq_null (h : OneKind null w) : w = null := by
  cases h with
  | missing => rfl
  | ownKeys hv => cases hv
  | written hv => cases hv

theorem LooksLike.eq_null_or_str (h : LooksLike u v w) : v = null ∨ ∃ s, w = str s := by
  cases h with
  | missing => exact .inl rfl
  | truth => exact .inr ⟨_, rfl⟩
  | written => exact .inr ⟨_, rfl⟩

theorem OneKind.sameKey_bucketKey (h : OneKind v w) (hnull : v ≠ null) :
    (v.bucketKey u).sameKey (w.bucketKey u) = true := by
  cases h with
  | missing => exact absurd rfl hnull
  | truth b => exact sameKey_str_iff.2 rfl
  | ownKeys hv hw h =>
    rw [bucketKey_of_isOwnKey hv, bucketKey_of_isOwnKey hw]
    exact h
  | written hv hw h =>
    rw [bucketKey_of_unhashable hv, bucketKey_of_unhashable hw, sameKey_str_iff, h]

theorem kinds_of_bool {b : Bool} (hw : w ≠ null) (h : ((bool b).bucketKey u).sameKey (w.bucketKey u) = true) :
    OneKind (bool b) w ∨ LooksLike u (bool b) w := by
  have hkey : w.bucketKey u = str (if b then "true" else "false") := sameKey_str_iff.1 h
  rcases kind_cases w with rfl | ⟨c, rfl⟩ | hown | hwritten
  · exact absurd rfl hw
  · obtain rfl : b = c := by revert hkey; cases b <;> cases c <;> simp [bucketKey]
    exact .inl (.truth b)
  · rw [bucketKey_of_isOwnKey hown] at hkey
    rw [hkey]
    exact .inr (.truth b)
  · rw [bucketKey_of_unhashable hwritten] at hkey
    exact absurd (str.inj hkey) (canonical_ne_boolText hwritten b)

theorem kinds_of_unhashable (hv : v.isHashable = false) (hw : w ≠ null)
    (h : (v.bucketKey u).sameKey (w.bucketKey u) = true) : OneKind v w ∨ LooksLike u v w := by
  rw [bucketKey_of_unhashable hv, sameKey_str_iff] at h
  rcases kind_cases w with rfl | ⟨b, rfl⟩ | hown | hwritten
  · exact absurd rfl hw
  · exact absurd (str.inj h).symm (canonical_ne_boolText hv b)
  · rw [bucketKey_of_isOwnKey hown] at h
    rw [h]
    exact .inr (.written hv)
  · rw [bucketKey_of_unhashable hwritten] at h
    exact .inl (.written hv hwritten (str.inj h).symm)

/-- **Values that share a key are of one kind, or one of them looks like the other.** -/
theorem kinds_of_sameKey (hv : v ≠ null) (hw : w ≠ null) (h : (v.bucketKey u).sameKey (w.bucketKey u) = true) :
    OneKind v w ∨ LooksLike u v w ∨ LooksLike u w v := by
  rcases kind_cases v with rfl | ⟨b, rfl⟩ | hown | hwritten
  · exact absurd rfl hv
  · exact (kinds_of_bool hw h).imp_right .inl
  · rcases kind_cases w with rfl | ⟨b, rfl⟩ | hown' | hwritten
    · exact absurd rfl hw
    · exact (kinds_of_bool hv (sameKey_symm h)).imp OneKind.symm .inr
    · rw [bucketKey_of_isOwnKey hown, bucketKey_of_isOwnKey hown'] at h
      exact .inl (.ownKeys hown hown' h)
    · exact (kinds_of_unhashable hwritten hv (sameKey_symm h)).imp OneKind.symm .inr
  · exact (kinds_of_unhashable hwritten hw h).imp_right .inl

end Value

/-! ## Places in buckets -/

namespace Buckets

def placesUnder (path : String) (unassigned : Value) (rows : List Value) (k : BucketKey) : List Nat :=
  (rows.zipIdx.filter fun (row, place) => k.same (.ofRow path unassigned row place)).map Prod.snd

/-- Whether two places are places of one bucket. -/
def Together (path : String) (unassigned : Value) (rows : List Value) (i j : Nat) : Prop :=
  ∃ k ∈ firstKeys path unassigned rows, i ∈ placesUnder path unassigned rows k ∧ j ∈ placesUnder path unassigned rows k

def atPlaces (path : String) (unassigned : Value) (rows : List Value) : Buckets :=
  (firstKeys path unassigned rows).map fun k =>
    (k.value, (placesUnder path unassigned rows k).filterMap fun place => rows[place]?)

instance (path : String) (unassigned : Value) (rows : List Value) (i j : Nat) :
    Decidable (Together path unassigned rows i j) :=
  inferInstanceAs (Decidable (∃ k ∈ firstKeys path unassigned rows, _))

variable {path : String} {unassigned : Value} {rows : List Value} {i j : Nat} {row other : Value}

theorem rowsUnder_eq (k : BucketKey) :
    rowsUnder path unassigned rows k = (placesUnder path unassigned rows k).filterMap fun place => rows[place]? := by
  rw [rowsUnder, placesUnder, List.filterMap_map]
  refine (List.filterMap_eq_map_iff_forall_eq_some.2 fun p hp => ?_).symm
  exact List.mk_mem_zipIdx_iff_getElem?.1 (List.mem_filter.1 hp).1

theorem mem_placesUnder {k : BucketKey} (hi : rows[i]? = some row) :
    i ∈ placesUnder path unassigned rows k ↔ k.same (.ofRow path unassigned row i) = true := by
  rw [placesUnder, List.mem_map]
  constructor
  · rintro ⟨⟨found, place⟩, hp, rfl⟩
    rw [List.mem_filter, List.mk_mem_zipIdx_iff_getElem?] at hp
    obtain rfl := Option.some.inj (hi.symm.trans hp.1)
    exact hp.2
  · intro h
    exact ⟨(row, i), List.mem_filter.2 ⟨List.mk_mem_zipIdx_iff_getElem?.2 hi, h⟩, rfl⟩

theorem ofRow_mem_rowKeys (hi : rows[i]? = some row) : .ofRow path unassigned row i ∈ rowKeys path unassigned rows :=
  List.mem_map.2 ⟨(row, i), List.mk_mem_zipIdx_iff_getElem?.2 hi, rfl⟩

theorem together_iff (hi : rows[i]? = some row) (hj : rows[j]? = some other) :
    Together path unassigned rows i j ↔
      (BucketKey.ofRow path unassigned row i).same (.ofRow path unassigned other j) = true := by
  have hclasses : Entries.Classifies BucketKey.same (rowKeys path unassigned rows) := classifies_rowKeys
  have hki : .ofRow path unassigned row i ∈ rowKeys path unassigned rows := ofRow_mem_rowKeys hi
  have hkj : .ofRow path unassigned other j ∈ rowKeys path unassigned rows := ofRow_mem_rowKeys hj
  have hfirst : ∀ k ∈ firstKeys path unassigned rows, k ∈ rowKeys path unassigned rows := by
    intro k hk
    rw [← keys_collect_keyedRows] at hk
    rw [← keys_keyedRows]
    exact Entries.mem_of_mem_keys_collect hk
  constructor
  · rintro ⟨k, hk, hik, hjk⟩
    rw [mem_placesUnder hi] at hik
    rw [mem_placesUnder hj] at hjk
    have hk := hfirst k hk
    exact hclasses.trans _ hki k hk _ hkj (hclasses.symm k hk _ hki hik) hjk
  · intro h
    have hone : 0 < (firstKeys path unassigned rows).countP fun k => k.same (.ofRow path unassigned row i) := by
      rw [← keys_collect_keyedRows, Entries.countP_keys_collect (keys_keyedRows ▸ hclasses) _ (keys_keyedRows ▸ hki)]
      exact Nat.one_pos
    obtain ⟨k, hk, hik⟩ := List.countP_pos_iff.1 hone
    refine ⟨k, hk, (mem_placesUnder hi).2 hik, (mem_placesUnder hj).2 ?_⟩
    exact hclasses.trans k (hfirst k hk) _ hki _ hkj hik h

/-! ## What shares a bucket -/

theorem ofRow_of_null {place : Nat} (h : row.atPath path = .null) :
    BucketKey.ofRow path unassigned row place = ⟨none, unassigned⟩ := by
  rw [BucketKey.ofRow, h]
  rfl

theorem ofRow_of_ne_null {place : Nat} (h : row.atPath path ≠ .null) :
    BucketKey.ofRow path unassigned row place = ⟨some place, (row.atPath path).bucketKey unassigned⟩ := by
  rw [BucketKey.ofRow]
  cases hv : row.atPath path with
  | null => exact absurd hv h
  | _ => rfl

open Value (OneKind LooksLike)

theorem together_of_oneKind (hi : rows[i]? = some row) (hj : rows[j]? = some other)
    (h : OneKind (row.atPath path) (other.atPath path)) : Together path unassigned rows i j := by
  rw [together_iff hi hj, BucketKey.same_iff]
  by_cases hrow : row.atPath path = .null
  · have hother : other.atPath path = .null := (hrow ▸ h).eq_null
    rw [ofRow_of_null hrow, ofRow_of_null hother]
    exact .inl rfl
  · exact .inr (h.sameKey_bucketKey hrow)

/-- **Rows that share a bucket have values of one kind, or a value that looks like another.** -/
theorem kinds_of_together (hne : i ≠ j) (hi : rows[i]? = some row) (hj : rows[j]? = some other)
    (h : Together path unassigned rows i j) :
    OneKind (row.atPath path) (other.atPath path) ∨ LooksLike unassigned (row.atPath path) (other.atPath path) ∨
      LooksLike unassigned (other.atPath path) (row.atPath path) := by
  rw [together_iff hi hj, BucketKey.same_iff] at h
  by_cases hrow : row.atPath path = .null <;> by_cases hother : other.atPath path = .null
  · rw [hrow, hother]
    exact .inl .missing
  · rw [ofRow_of_null hrow, ofRow_of_ne_null hother] at h
    rw [hrow]
    exact .inr (.inl (.missing hother (Value.sameKey_symm (h.resolve_left nofun))))
  · rw [ofRow_of_ne_null hrow, ofRow_of_null hother] at h
    rw [hother]
    exact .inr (.inr (.missing hrow (h.resolve_left nofun)))
  · rw [ofRow_of_ne_null hrow, ofRow_of_ne_null hother] at h
    exact Value.kinds_of_sameKey hrow hother (h.resolve_left fun hplace => hne (Option.some.inj hplace))

/-- **Between values that are there and are no texts, kinds never mix.** -/
theorem together_iff_oneKind (hne : i ≠ j) (hi : rows[i]? = some row) (hj : rows[j]? = some other)
    (hrow : row.atPath path ≠ .null ∧ ∀ s, row.atPath path ≠ .str s)
    (hother : other.atPath path ≠ .null ∧ ∀ s, other.atPath path ≠ .str s) :
    Together path unassigned rows i j ↔ OneKind (row.atPath path) (other.atPath path) := by
  constructor
  · intro h
    rcases kinds_of_together hne hi hj h with hkind | hlooks | hlooks
    · exact hkind
    · rcases hlooks.eq_null_or_str with hnull | ⟨s, hs⟩
      · exact absurd hnull hrow.1
      · exact absurd hs (hother.2 s)
    · rcases hlooks.eq_null_or_str with hnull | ⟨s, hs⟩
      · exact absurd hnull hother.1
      · exact absurd hs (hrow.2 s)
  · exact together_of_oneKind hi hj

theorem isHashable_of_ofRows {b : Buckets} (h : ofRows path unassigned rows = .ok b) :
    ∀ row ∈ rows, ((row.atPath path).bucketKey unassigned).isHashable = true := by
  obtain ⟨items, hitems, -⟩ := bind_eq_ok_iff.1 h
  have hkeys : ∀ p ∈ rows.zipIdx, ((p.1.atPath path).bucketKey unassigned).isHashable = true := by
    refine ((List.forall₂_and_left _ _).1 ((mapM_eq_ok_iff.1 hitems).imp fun p item hp => ⟨?_, hp⟩)).1
    by_contra hno
    cases (if_neg hno).symm.trans hp
  intro row hrow
  obtain ⟨place, hplace⟩ := List.getElem?_of_mem hrow
  exact hkeys (row, place) (List.mk_mem_zipIdx_iff_getElem?.2 hplace)

theorem ofRows_eq_atPlaces (h : ∀ row ∈ rows, ((row.atPath path).bucketKey unassigned).isHashable = true) :
    ofRows path unassigned rows = .ok (atPlaces path unassigned rows) := by
  obtain ⟨b, hb, hpartition⟩ := partition_of_rows h
  have hplaces : b = atPlaces path unassigned rows := by
    rw [hpartition.buckets_eq]
    exact List.map_congr_left fun k _ => by rw [rowsUnder_eq]
  rw [hb, hplaces]

theorem eq_atPlaces_of_ofRows {b : Buckets} (h : ofRows path unassigned rows = .ok b) : b = atPlaces path unassigned rows :=
  Except.ok.inj (h.symm.trans (ofRows_eq_atPlaces (isHashable_of_ofRows h)))

/-- Rows of three kinds of value, each with the text that it looks like, a row without a value, and rows with objects: two
that are no keys and are written the same, and one that two rows share. -/
def lookAlikes : List Value :=
  [.map [("k", .null)], .map [("k", .str "unassigned")], .map [("k", .bool true)], .map [("k", .str "true")],
    .map [("k", .list [.int 1])], .map [("k", .str "[1]")], .map [], .map [("k", Endpoint.plank "ash")],
    .map [("k", Endpoint.plank "ash")], .map [("k", Endpoint.mill)], .map [("k", Endpoint.mill)]]

end Buckets
end ListQuery
