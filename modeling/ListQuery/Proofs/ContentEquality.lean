import Mathlib.Data.List.Nodup
import Mathlib.Data.List.Perm.Subperm
import ListQuery.Value.Basic
/-!
# Equality of contents

Two values have the same content if they are equal up to the order in which maps list their entries, at every level.
`inKeyOrder` puts the entries of each map in the order of their keys.  Main statements: `sameContent_iff` (with distinct
keys, two values have the same content exactly if they are equal when put in key order) and `sameContent_inKeyOrder`.
-/
namespace ListQuery
namespace Value

mutual

/-- Whether two values are equal up to the order of entries: of two maps, each has as many entries as the other, and those of
the first are found in the second. -/
def sameContent : Value → Value → Bool
  | null, null => true
  | bool a, bool b => a == b
  | int m, int n => m == n
  | float x, float y => x == y
  | str s, str t => s == t
  | bytes a, bytes b => a == b
  | time t, time u => t == u
  | badTime s, badTime t => s == t
  | span m, span n => m == n
  | list a, list b | tuple a, tuple b | set a, set b => sameItems a b
  | map a, map b => a.length == b.length && sameEntriesIn b a
  | record h a, record k b => decide (h = k) && (a.length == b.length && sameEntriesIn b a)
  | _, _ => false

def sameItems : List Value → List Value → Bool
  | [], [] => true
  | v :: vs, w :: ws => sameContent v w && sameItems vs ws
  | _, _ => false

def sameEntriesIn (b : List (String × Value)) : List (String × Value) → Bool
  | [] => true
  | (key, v) :: rest => (match lookup? key b with | some w => sameContent v w | none => false) && sameEntriesIn b rest

end

mutual

/-- Whether no map has a key twice, at any level. -/
def hasDistinctKeys : Value → Bool
  | list items | tuple items | set items => allDistinctKeys items
  | map entries | record _ entries => decide (Entries.keys entries).Nodup && entriesDistinctKeys entries
  | _ => true

def allDistinctKeys : List Value → Bool
  | [] => true
  | v :: rest => hasDistinctKeys v && allDistinctKeys rest

def entriesDistinctKeys : List (String × Value) → Bool
  | [] => true
  | (_, v) :: rest => hasDistinctKeys v && entriesDistinctKeys rest

end

def sortByKey (entries : List (String × Value)) : List (String × Value) := entries.mergeSort fun a b => a.1 ≤ b.1

mutual

def inKeyOrder : Value → Value
  | list items => list (itemsInKeyOrder items)
  | tuple items => tuple (itemsInKeyOrder items)
  | set items => set (itemsInKeyOrder items)
  | map entries => map (sortByKey (entriesInKeyOrder entries))
  | record handle attributes => record handle (sortByKey (entriesInKeyOrder attributes))
  | v => v

def itemsInKeyOrder : List Value → List Value
  | [] => []
  | v :: rest => inKeyOrder v :: itemsInKeyOrder rest

def entriesInKeyOrder : List (String × Value) → List (String × Value)
  | [] => []
  | (key, v) :: rest => (key, inKeyOrder v) :: entriesInKeyOrder rest

end

/-! ## Entries with distinct keys -/

theorem lookup?_eq_some_iff {key : String} {w : Value} {entries : List (String × Value)}
    (hnd : (Entries.keys entries).Nodup) :
    lookup? key entries = some w ↔ (key, w) ∈ entries := by
  constructor
  · intro h
    induction entries with
    | nil => cases h
    | cons e rest ih =>
      rw [lookup?, Entries.find?] at h
      split at h
      · rename_i hkey
        obtain rfl : e.1 = key := by simpa using hkey
        obtain rfl := Option.some.inj h
        exact List.mem_cons_self
      · exact List.mem_cons_of_mem e (ih (List.nodup_cons.1 hnd).2 h)
  · exact Entries.find?_of_mem hnd

theorem entriesInKeyOrder_eq : ∀ entries : List (String × Value),
    entriesInKeyOrder entries = entries.map fun e => (e.1, e.2.inKeyOrder)
  | [] => rfl
  | (key, v) :: rest => congrArg ((key, v.inKeyOrder) :: ·) (entriesInKeyOrder_eq rest)

theorem keys_entriesInKeyOrder (entries : List (String × Value)) :
    Entries.keys (entriesInKeyOrder entries) = Entries.keys entries := by
  rw [entriesInKeyOrder_eq, Entries.keys, List.map_map]
  rfl

theorem eq_of_mem_of_keys {e d : String × Value} : ∀ {entries : List (String × Value)}, (Entries.keys entries).Nodup →
    e ∈ entries → d ∈ entries → e.1 = d.1 → e = d := by
  intro entries hnd he hd hkey
  have hfound := (lookup?_eq_some_iff hnd).2 he
  rw [hkey, (lookup?_eq_some_iff hnd).2 hd] at hfound
  exact Prod.ext hkey (Option.some.inj hfound).symm

theorem pairwise_sortByKey (entries : List (String × Value)) : (sortByKey entries).Pairwise fun d e => d.1 ≤ e.1 := by
  have htrans : ∀ c d e : String × Value, decide (c.1 ≤ d.1) = true → decide (d.1 ≤ e.1) = true →
      decide (c.1 ≤ e.1) = true := by
    intro c d e hcd hde
    exact decide_eq_true (String.le_trans (of_decide_eq_true hcd) (of_decide_eq_true hde))
  have htotal : ∀ d e : String × Value, (decide (d.1 ≤ e.1) || decide (e.1 ≤ d.1)) = true := by
    intro d e
    simpa using String.le_total d.1 e.1
  exact (List.pairwise_mergeSort htrans htotal entries).imp of_decide_eq_true

theorem sortByKey_perm (entries : List (String × Value)) : (sortByKey entries).Perm entries := List.mergeSort_perm _ _

theorem sortByKey_eq_iff {a b : List (String × Value)} (hnd : (Entries.keys a).Nodup) :
    sortByKey a = sortByKey b ↔ a.Perm b := by
  constructor
  · intro h
    exact (sortByKey_perm a).symm.trans (h ▸ sortByKey_perm b)
  · intro h
    refine List.Perm.eq_of_pairwise ?_ (pairwise_sortByKey a) (pairwise_sortByKey b)
      (((sortByKey_perm a).trans h).trans (sortByKey_perm b).symm)
    intro d e hd he hde hed
    rw [(sortByKey_perm _).mem_iff] at hd he
    exact eq_of_mem_of_keys hnd hd (h.mem_iff.2 he) (String.le_antisymm hde hed)

theorem hasDistinctKeys_of_mem {e : String × Value} : ∀ {entries : List (String × Value)},
    entriesDistinctKeys entries = true → e ∈ entries → e.2.hasDistinctKeys = true
  | d :: rest, h, he => by
    rw [entriesDistinctKeys, Bool.and_eq_true] at h
    obtain rfl | he := List.mem_cons.1 he
    · exact h.1
    · exact hasDistinctKeys_of_mem h.2 he

theorem subset_iff_sortByKey_eq {a b : List (String × Value)} (hnd : (Entries.keys a).Nodup) :
    (a.length = b.length ∧ entriesInKeyOrder a ⊆ entriesInKeyOrder b) ↔
      sortByKey (entriesInKeyOrder a) = sortByKey (entriesInKeyOrder b) := by
  have hkeys : (Entries.keys (entriesInKeyOrder a)).Nodup := keys_entriesInKeyOrder a ▸ hnd
  have hlength : ∀ c, (entriesInKeyOrder c).length = c.length := by
    intro c
    rw [entriesInKeyOrder_eq, List.length_map]
  rw [sortByKey_eq_iff hkeys]
  constructor
  · rintro ⟨hcount, hsub⟩
    refine (List.subperm_of_subset (List.Nodup.of_map Prod.fst hkeys) hsub).perm_of_length_le (Nat.le_of_eq ?_)
    rw [hlength, hlength, hcount]
  · intro hperm
    exact ⟨by rw [← hlength a, ← hlength b, hperm.length_eq], hperm.subset⟩

/-! ## The normal form decides -/

mutual

/-- **With distinct keys, values have the same content exactly if they are equal in key order.** -/
theorem sameContent_iff : ∀ {v w : Value}, v.hasDistinctKeys = true → w.hasDistinctKeys = true →
    (v.sameContent w = true ↔ v.inKeyOrder = w.inKeyOrder)
  | list a, w, ha, hw => by
    cases w with
    | list b => simpa [sameContent, inKeyOrder] using sameItems_iff ha hw
    | _ => simp [sameContent, inKeyOrder]
  | tuple a, w, ha, hw => by
    cases w with
    | tuple b => simpa [sameContent, inKeyOrder] using sameItems_iff ha hw
    | _ => simp [sameContent, inKeyOrder]
  | set a, w, ha, hw => by
    cases w with
    | set b => simpa [sameContent, inKeyOrder] using sameItems_iff ha hw
    | _ => simp [sameContent, inKeyOrder]
  | map a, w, ha, hw => by
    rw [hasDistinctKeys, Bool.and_eq_true, decide_eq_true_eq] at ha
    cases w with
    | map b =>
      rw [hasDistinctKeys, Bool.and_eq_true, decide_eq_true_eq] at hw
      rw [sameContent, Bool.and_eq_true, beq_iff_eq, sameEntriesIn_iff hw.1 hw.2 ha.2, subset_iff_sortByKey_eq ha.1]
      simp [inKeyOrder]
    | _ => simp [sameContent, inKeyOrder]
  | record h a, w, ha, hw => by
    rw [hasDistinctKeys, Bool.and_eq_true, decide_eq_true_eq] at ha
    cases w with
    | record k b =>
      rw [hasDistinctKeys, Bool.and_eq_true, decide_eq_true_eq] at hw
      rw [sameContent, Bool.and_eq_true, Bool.and_eq_true, beq_iff_eq, sameEntriesIn_iff hw.1 hw.2 ha.2,
        subset_iff_sortByKey_eq ha.1]
      simp [inKeyOrder]
    | _ => simp [sameContent, inKeyOrder]
  | null, w, _, _ | bool _, w, _, _ | int _, w, _, _ | float _, w, _, _ | str _, w, _, _ | bytes _, w, _, _
  | time _, w, _, _ | badTime _, w, _, _ | span _, w, _, _ => by
    cases w <;> simp [sameContent, inKeyOrder]

theorem sameItems_iff : ∀ {vs ws : List Value}, allDistinctKeys vs = true → allDistinctKeys ws = true →
    (sameItems vs ws = true ↔ itemsInKeyOrder vs = itemsInKeyOrder ws)
  | [], [], _, _ => by simp [sameItems]
  | [], _ :: _, _, _ => by simp [sameItems, itemsInKeyOrder]
  | _ :: _, [], _, _ => by simp [sameItems, itemsInKeyOrder]
  | v :: vs, w :: ws, hv, hw => by
    rw [allDistinctKeys, Bool.and_eq_true] at hv hw
    rw [sameItems, itemsInKeyOrder, itemsInKeyOrder, List.cons.injEq, Bool.and_eq_true, sameContent_iff hv.1 hw.1,
      sameItems_iff hv.2 hw.2]

theorem sameEntriesIn_iff {b : List (String × Value)} (hnd : (Entries.keys b).Nodup) (hb : entriesDistinctKeys b = true) :
    ∀ {a : List (String × Value)}, entriesDistinctKeys a = true →
      (sameEntriesIn b a = true ↔ entriesInKeyOrder a ⊆ entriesInKeyOrder b)
  | [], _ => by simp [sameEntriesIn, entriesInKeyOrder]
  | (key, v) :: rest, ha => by
    rw [entriesDistinctKeys, Bool.and_eq_true] at ha
    have hfirst : (match lookup? key b with | some w => sameContent v w | none => false) = true ↔
        (key, v.inKeyOrder) ∈ entriesInKeyOrder b := by
      rw [entriesInKeyOrder_eq, List.mem_map]
      constructor
      · intro h
        split at h
        · rename_i w hw
          have hmem := (lookup?_eq_some_iff hnd).1 hw
          exact ⟨(key, w), hmem, by rw [(sameContent_iff ha.1 (hasDistinctKeys_of_mem hb hmem)).1 h]⟩
        · cases h
      · rintro ⟨⟨k, w⟩, hmem, heq⟩
        obtain ⟨rfl, hvalue⟩ := Prod.mk.inj heq
        rw [(lookup?_eq_some_iff hnd).2 hmem]
        exact (sameContent_iff ha.1 (hasDistinctKeys_of_mem hb hmem)).2 hvalue.symm
    rw [sameEntriesIn, entriesInKeyOrder, Bool.and_eq_true, List.cons_subset, hfirst, sameEntriesIn_iff hnd hb ha.2]

end

/-! ## The normal form of a normal form -/

theorem sortByKey_entriesInKeyOrder (entries : List (String × Value)) :
    sortByKey (entriesInKeyOrder entries) = (sortByKey entries).map fun e => (e.1, e.2.inKeyOrder) := by
  unfold sortByKey
  rw [entriesInKeyOrder_eq]
  symm
  apply List.map_mergeSort
  intro d _ e _
  rfl

theorem sortByKey_sortByKey (entries : List (String × Value)) : sortByKey (sortByKey entries) = sortByKey entries :=
  List.mergeSort_of_pairwise ((pairwise_sortByKey entries).imp decide_eq_true)

theorem nodup_sortByKey {entries : List (String × Value)} (h : (Entries.keys entries).Nodup) :
    (Entries.keys (sortByKey (entriesInKeyOrder entries))).Nodup := by
  rw [← keys_entriesInKeyOrder] at h
  exact ((sortByKey_perm _).map Prod.fst).nodup_iff.2 h

theorem entriesDistinctKeys_of_forall : ∀ {entries : List (String × Value)},
    (∀ e ∈ entries, e.2.hasDistinctKeys = true) → entriesDistinctKeys entries = true
  | [], _ => rfl
  | (key, v) :: rest, h => by
    rw [entriesDistinctKeys, h _ List.mem_cons_self,
      entriesDistinctKeys_of_forall fun e he => h e (List.mem_cons_of_mem _ he)]
    rfl

theorem entriesInKeyOrder_sortByKey {entries : List (String × Value)}
    (h : ∀ e ∈ entries, e.2.inKeyOrder.inKeyOrder = e.2.inKeyOrder) :
    sortByKey (entriesInKeyOrder (sortByKey (entriesInKeyOrder entries))) = sortByKey (entriesInKeyOrder entries) := by
  rw [sortByKey_entriesInKeyOrder, sortByKey_sortByKey, sortByKey_entriesInKeyOrder, List.map_map]
  refine List.map_congr_left fun e he => ?_
  rw [Function.comp_apply, h e ((sortByKey_perm entries).mem_iff.1 he)]

mutual

theorem inKeyOrder_inKeyOrder : ∀ v : Value, v.inKeyOrder.inKeyOrder = v.inKeyOrder
  | list items | tuple items | set items => by simp only [inKeyOrder, itemsInKeyOrder_itemsInKeyOrder items]
  | map entries | record _ entries => by
    simp only [inKeyOrder, entriesInKeyOrder_sortByKey fun e he => inKeyOrder_inKeyOrder_of_mem entries e he]
  | null | bool _ | int _ | float _ | str _ | bytes _ | time _ | badTime _ | span _ => rfl

theorem itemsInKeyOrder_itemsInKeyOrder : ∀ items : List Value,
    itemsInKeyOrder (itemsInKeyOrder items) = itemsInKeyOrder items
  | [] => rfl
  | v :: rest => by
    simp only [itemsInKeyOrder, inKeyOrder_inKeyOrder v, itemsInKeyOrder_itemsInKeyOrder rest]

theorem inKeyOrder_inKeyOrder_of_mem : ∀ (entries : List (String × Value)), ∀ e ∈ entries,
    e.2.inKeyOrder.inKeyOrder = e.2.inKeyOrder
  | [], e, he => absurd he List.not_mem_nil
  | (key, v) :: rest, e, he => by
    rcases List.mem_cons.1 he with rfl | he
    · exact inKeyOrder_inKeyOrder v
    · exact inKeyOrder_inKeyOrder_of_mem rest e he

end

mutual

theorem hasDistinctKeys_inKeyOrder : ∀ {v : Value}, v.hasDistinctKeys = true → v.inKeyOrder.hasDistinctKeys = true
  | list items, h | tuple items, h | set items, h => by
    rw [inKeyOrder, hasDistinctKeys]
    exact allDistinctKeys_itemsInKeyOrder h
  | map entries, h | record _ entries, h => by
    rw [hasDistinctKeys, Bool.and_eq_true, decide_eq_true_eq] at h
    rw [inKeyOrder, hasDistinctKeys, Bool.and_eq_true, decide_eq_true_eq]
    refine ⟨nodup_sortByKey h.1, entriesDistinctKeys_of_forall fun e he => ?_⟩
    rw [(sortByKey_perm _).mem_iff, entriesInKeyOrder_eq, List.mem_map] at he
    obtain ⟨d, hd, rfl⟩ := he
    exact hasDistinctKeys_inKeyOrder_of_mem h.2 d hd
  | null, _ | bool _, _ | int _, _ | float _, _ | str _, _ | bytes _, _ | time _, _ | badTime _, _ | span _, _ => rfl

theorem allDistinctKeys_itemsInKeyOrder : ∀ {items : List Value}, allDistinctKeys items = true →
    allDistinctKeys (itemsInKeyOrder items) = true
  | [], _ => rfl
  | v :: rest, h => by
    rw [allDistinctKeys, Bool.and_eq_true] at h
    rw [itemsInKeyOrder, allDistinctKeys, hasDistinctKeys_inKeyOrder h.1, allDistinctKeys_itemsInKeyOrder h.2]
    rfl

theorem hasDistinctKeys_inKeyOrder_of_mem : ∀ {entries : List (String × Value)}, entriesDistinctKeys entries = true →
    ∀ e ∈ entries, e.2.inKeyOrder.hasDistinctKeys = true
  | [], _, e, he => absurd he List.not_mem_nil
  | (key, v) :: rest, h, e, he => by
    rw [entriesDistinctKeys, Bool.and_eq_true] at h
    rcases List.mem_cons.1 he with rfl | he
    · exact hasDistinctKeys_inKeyOrder h.1
    · exact hasDistinctKeys_inKeyOrder_of_mem h.2 e he

end

theorem sameContent_inKeyOrder {v : Value} (h : v.hasDistinctKeys = true) : v.inKeyOrder.sameContent v = true :=
  (sameContent_iff (hasDistinctKeys_inKeyOrder h) h).2 (inKeyOrder_inKeyOrder v)

end Value
end ListQuery
