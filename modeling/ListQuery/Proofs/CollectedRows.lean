import Mathlib.Data.List.Basic
import ListQuery.Entries
/-!
# Collected rows

`collect` goes through its items one by one and looks for the row of each.  Seen from the first item it does this: the row
of the first key takes every later item of the same key, and the other items are collected among themselves
(`collect_cons`).  So much holds of any test on keys.  Where the test sorts the keys into classes, each key stands once, in
the order in which the keys were first seen (`keys_collect`), its row is the subsequence of all items of that key
(`collect_eq`), and every item comes into exactly one row (`countP_keys_collect`, `perm_collect`).
-/
namespace ListQuery.Entries

variable {κ α : Type} {same : κ → κ → Bool}

def under (same : κ → κ → Bool) (k : κ) (items : List (κ × α)) : List α :=
  (items.filter fun item => same k item.1).map Prod.snd

def apart (same : κ → κ → Bool) (k : κ) (items : List (κ × α)) : List (κ × α) :=
  items.filter fun item => !same k item.1

theorem length_apart_lt (same : κ → κ → Bool) (k : κ) (item : κ × α) (items : List (κ × α)) :
    (apart same k items).length < (item :: items).length :=
  Nat.lt_succ_of_le (List.length_filter_le _ items)

theorem foldl_put (same : κ → κ → Bool) : ∀ (items : List (κ × α)) (k : κ) (row : List α) (entries : List (κ × List α)),
    items.foldl (put same) ((k, row) :: entries) =
      (k, row ++ under same k items) :: (apart same k items).foldl (put same) entries
  | [], k, row, entries => by simp [under, apart]
  | (l, a) :: items, k, row, entries => by
    rw [List.foldl_cons, put, alter]
    by_cases h : same k l = true
    · rw [if_pos h, foldl_put same items]
      simp [under, apart, h]
    · rw [if_neg h, foldl_put same items]
      simp [under, apart, h, put]

/-- **The first item opens a row for all items of its key**, and the others are collected among themselves. -/
theorem collect_cons (same : κ → κ → Bool) (k : κ) (a : α) (items : List (κ × α)) :
    collect same ((k, a) :: items) = (k, a :: under same k items) :: collect same (apart same k items) :=
  foldl_put same items k [a] []

/-! ## Any test on keys -/

theorem keys_collect (same : κ → κ → Bool) : ∀ items : List (κ × α),
    keys (collect same items) = (items.map Prod.fst).eraseDupsBy fun l k => same k l
  | [] => rfl
  | (k, a) :: items => by
    have ih := keys_collect same (apart same k items)
    have hfilter : (apart same k items).map Prod.fst = (items.map Prod.fst).filter fun l => decide (same k l = false) := by
      rw [apart, List.filter_map]
      congr 2
      funext item
      cases h : same k item.1 <;> simp [h]
    rw [collect_cons, keys, List.map_cons, ← keys, ih, hfilter, List.map_cons, List.eraseDupsBy_cons]
termination_by items => items.length
decreasing_by exact length_apart_lt same k _ items

theorem ne_nil_of_mem_collect : ∀ {items : List (κ × α)}, ∀ e ∈ collect same items, e.2 ≠ []
  | [], e, he => absurd he List.not_mem_nil
  | (k, a) :: items, e, he => by
    rw [collect_cons, List.mem_cons] at he
    obtain rfl | he := he
    · exact List.cons_ne_nil _ _
    · exact ne_nil_of_mem_collect e he
termination_by items => items.length
decreasing_by exact length_apart_lt same k _ items

theorem mem_of_mem_keys_collect : ∀ {items : List (κ × α)} {k : κ}, k ∈ keys (collect same items) → k ∈ items.map Prod.fst
  | [], k, hk => absurd hk List.not_mem_nil
  | (l, a) :: items, k, hk => by
    rw [collect_cons, keys, List.map_cons, List.mem_cons, ← keys] at hk
    obtain rfl | hk := hk
    · exact List.mem_cons_self
    · obtain ⟨item, hitem, rfl⟩ := List.mem_map.1 (mem_of_mem_keys_collect hk)
      exact List.mem_cons_of_mem _ (List.mem_map_of_mem (List.mem_filter.1 hitem).1)
termination_by items => items.length
decreasing_by exact length_apart_lt same l _ items

theorem pairwise_keys_collect : ∀ items : List (κ × α),
    (keys (collect same items)).Pairwise fun k l => same k l = false
  | [] => List.Pairwise.nil
  | (k, a) :: items => by
    have ih := pairwise_keys_collect (apart same k items)
    rw [collect_cons, keys, List.map_cons, ← keys, List.pairwise_cons]
    refine ⟨fun l hl => ?_, ih⟩
    obtain ⟨item, hitem, rfl⟩ := List.mem_map.1 (mem_of_mem_keys_collect hl)
    simpa using (List.mem_filter.1 hitem).2
termination_by items => items.length
decreasing_by exact length_apart_lt same k _ items

/-- **Nothing is lost, added or moved to another key**: the rows together hold the items.  What is made of a value and its
key must be the same for keys that are. -/
theorem perm_collect {β : Type} (same : κ → κ → Bool) (f : κ → α → β) (hf : ∀ k l a, same k l = true → f k a = f l a) :
    ∀ items : List (κ × α),
      ((collect same items).flatMap fun e => e.2.map (f e.1)).Perm (items.map fun item => f item.1 item.2)
  | [] => List.Perm.nil
  | (k, a) :: items => by
    have ih := perm_collect same f hf (apart same k items)
    have hunder : (under same k items).map (f k) =
        (items.filter fun item => same k item.1).map fun item => f item.1 item.2 := by
      rw [under, List.map_map]
      exact List.map_congr_left fun item hitem => hf k item.1 item.2 (List.mem_filter.1 hitem).2
    rw [collect_cons, List.flatMap_cons, List.map_cons, List.map_cons, List.cons_append, hunder]
    refine List.Perm.cons _ ((List.Perm.append_left _ ih).trans ?_)
    -- what the first key takes and what passes it by are the two halves of a filter
    rw [apart, ← List.map_append]
    exact (List.filter_append_perm _ items).map _
termination_by items => items.length
decreasing_by exact length_apart_lt same k _ items

/-! ## Tests that sort keys into classes -/

/-- Among these keys, being the same is an equivalence. -/
structure Classifies (same : κ → κ → Bool) (ks : List κ) : Prop where
  refl : ∀ k ∈ ks, same k k = true
  symm : ∀ k ∈ ks, ∀ l ∈ ks, same k l = true → same l k = true
  trans : ∀ k ∈ ks, ∀ l ∈ ks, ∀ m ∈ ks, same k l = true → same l m = true → same k m = true

theorem Classifies.mono {ks ls : List κ} (h : Classifies same ks) (hsub : ∀ k ∈ ls, k ∈ ks) : Classifies same ls where
  refl k hk := h.refl k (hsub k hk)
  symm k hk l hl := h.symm k (hsub k hk) l (hsub l hl)
  trans k hk l hl m hm := h.trans k (hsub k hk) l (hsub l hl) m (hsub m hm)

theorem Classifies.apart {k : κ} {a : α} {items : List (κ × α)} (h : Classifies same (((k, a) :: items).map Prod.fst)) :
    Classifies same ((apart same k items).map Prod.fst) := by
  refine h.mono fun l hl => ?_
  obtain ⟨item, hitem, rfl⟩ := List.mem_map.1 hl
  exact List.mem_cons_of_mem _ (List.mem_map_of_mem (List.mem_filter.1 hitem).1)

theorem under_apart {k l : κ} {a : α} {items : List (κ × α)} (h : Classifies same (((k, a) :: items).map Prod.fst))
    (hl : l ∈ (apart same k items).map Prod.fst) : under same l (apart same k items) = under same l ((k, a) :: items) := by
  have hk : k ∈ ((k, a) :: items).map Prod.fst := List.mem_cons_self
  obtain ⟨item, hitem, rfl⟩ := List.mem_map.1 hl
  obtain ⟨hitems, hne⟩ := List.mem_filter.1 hitem
  have hl : item.1 ∈ ((k, a) :: items).map Prod.fst := List.mem_cons_of_mem _ (List.mem_map_of_mem hitems)
  have hne : same k item.1 = false := by simpa using hne
  have hfirst : same item.1 k = false := by
    rw [Bool.eq_false_iff]
    intro hs
    rw [h.symm _ hl _ hk hs] at hne
    cases hne
  rw [under, under, Entries.apart, List.filter_filter, List.filter_cons_of_neg (by simp [hfirst])]
  congr 1
  refine List.filter_congr fun other hother => ?_
  have ho : other.1 ∈ ((k, a) :: items).map Prod.fst := List.mem_cons_of_mem _ (List.mem_map_of_mem hother)
  cases hs : same item.1 other.1 with
  | false => simp
  | true =>
    -- were it the same as the first key, so would be the key that it shares
    have hothers : same k other.1 = false := by
      rw [Bool.eq_false_iff]
      intro hko
      rw [h.trans _ hk _ ho _ hl hko (h.symm _ hl _ ho hs)] at hne
      cases hne
    simp [hothers]

theorem collect_eq : ∀ {items : List (κ × α)}, Classifies same (items.map Prod.fst) →
    collect same items = (keys (collect same items)).map fun k => (k, under same k items)
  | [], _ => rfl
  | (k, a) :: items, h => by
    have ih := collect_eq h.apart
    have hown : under same k ((k, a) :: items) = a :: under same k items := by
      rw [under, List.filter_cons, if_pos (h.refl k List.mem_cons_self)]
      rfl
    rw [collect_cons, keys, List.map_cons, List.map_cons, ← keys, hown]
    congr 1
    refine ih.trans (List.map_congr_left fun l hl => ?_)
    rw [under_apart h (mem_of_mem_keys_collect hl)]
termination_by items => items.length
decreasing_by exact length_apart_lt same k _ items

/-- **Each item has its place under exactly one of the keys.** -/
theorem countP_keys_collect : ∀ {items : List (κ × α)}, Classifies same (items.map Prod.fst) →
    ∀ l ∈ items.map Prod.fst, (keys (collect same items)).countP (fun k => same k l) = 1
  | [], _, l, hl => absurd hl List.not_mem_nil
  | (k, a) :: items, h, l, hl => by
    rw [collect_cons, keys, List.map_cons, ← keys, List.countP_cons]
    -- a key of the first class is nobody else's, and any other key is told apart further down
    by_cases hs : same k l = true
    · have hnone : (keys (collect same (apart same k items))).countP (fun m => same m l) = 0 := by
        rw [List.countP_eq_zero]
        intro m hm hml
        obtain ⟨item, hitem, rfl⟩ := List.mem_map.1 (mem_of_mem_keys_collect hm)
        obtain ⟨hitems, hne⟩ := List.mem_filter.1 hitem
        have hmem : item.1 ∈ ((k, a) :: items).map Prod.fst := List.mem_cons_of_mem _ (List.mem_map_of_mem hitems)
        have hkm := h.trans k List.mem_cons_self l hl item.1 hmem hs (h.symm _ hmem l hl hml)
        rw [hkm] at hne
        cases hne
      rw [hnone, if_pos hs]
    · have hapart : l ∈ (apart same k items).map Prod.fst := by
        rcases List.mem_cons.1 hl with rfl | hl
        · exact absurd (h.refl _ List.mem_cons_self) hs
        · obtain ⟨item, hitem, rfl⟩ := List.mem_map.1 hl
          exact List.mem_map_of_mem (List.mem_filter.2 ⟨hitem, by simpa using hs⟩)
      rw [countP_keys_collect h.apart l hapart, if_neg hs]
termination_by items => items.length
decreasing_by exact length_apart_lt same k _ items

end ListQuery.Entries
