import ListQuery.Proofs.FilterGroups
import ListQuery.Proofs.SelectionLevels
/-!
# How a filter is spelled

A collection of keys with their values can be written as a filter in many ways: the pairs of different keys may be mixed,
items without a colon may stand between them, and anything may follow a second colon.  All of these are read as the same
collection, and no other filter is: main statement `FilterPairs.ofText_eq_iff`.  It is put together from what one item can be
written as (`FilterItem.ofText_eq_iff_writes`) and from what the order of first occurrence is (`eraseDups_eq_iff`).
-/
namespace ListQuery

/-! ## Pieces -/

theorem splitChars_eq_splitOn (sep : Char) : ∀ cs : List Char, splitChars sep cs = cs.splitOn sep
  | [] => rfl
  | c :: cs => by
    have ih := splitChars_eq_splitOn sep cs
    have hne := splitChars_ne_nil sep cs
    rw [splitChars, List.splitOn_cons_eq_if_modifyHead, ← ih]
    by_cases h : c = sep
    · simp [h]
    · rcases hs : splitChars sep cs with _ | ⟨piece, pieces⟩
      · exact absurd hs hne
      · simp [h]

theorem not_mem_of_mem_splitChars (sep : Char) : ∀ cs : List Char, ∀ piece ∈ splitChars sep cs, sep ∉ piece
  | [] => by simp [splitChars]
  | c :: cs => by
    have ih := not_mem_of_mem_splitChars sep cs
    rw [splitChars]
    by_cases h : c = sep
    · simpa [h] using ih
    · rcases hs : splitChars sep cs with _ | ⟨piece, pieces⟩
      · simpa [h] using Ne.symm h
      · rw [hs, List.forall_mem_cons] at ih
        simpa [h, ih.1, Ne.symm h] using ih.2

/-- **A text is cut into the pieces that it joins**, if the separator is in none of them. -/
theorem splitText_eq_iff {sep : Char} {text : String} {pieces : List String} : splitText sep text = pieces ↔
    pieces ≠ [] ∧ (∀ piece ∈ pieces, sep ∉ piece.toList) ∧ text = (String.singleton sep).intercalate pieces := by
  have hchars : ((String.singleton sep).intercalate pieces).toList = [sep].intercalate (pieces.map String.toList) := by
    rw [String.toList_intercalate, String.toList_singleton]
  rw [splitText, splitChars_eq_splitOn]
  constructor
  · rintro rfl
    refine ⟨?_, ?_, ?_⟩
    · rw [← splitChars_eq_splitOn, Ne, List.map_eq_nil_iff]
      exact splitChars_ne_nil sep _
    · simp only [List.forall_mem_map, String.toList_ofList, ← splitChars_eq_splitOn]
      exact not_mem_of_mem_splitChars sep _
    · apply String.toList_injective
      rw [hchars, List.map_map]
      have hid : String.toList ∘ String.ofList = id := by
        funext cs
        simp
      rw [hid, List.map_id, List.intercalate_splitOn]
  · rintro ⟨hne, hfree, rfl⟩
    rw [hchars, List.splitOn_intercalate sep (by simpa using hfree) (by simpa using hne), List.map_map]
    simp [Function.comp_def]

/-! ## Items -/

/-- A text that can stand for a key or a value. -/
structure IsPlain (text : String) : Prop where
  noComma : ',' ∉ text.toList
  noColon : ':' ∉ text.toList

/-- What an item can be written as.  A second colon and what stands behind it say nothing. -/
inductive FilterItem.Writes : FilterItem → String → Prop
  | pair {key value : String} : IsPlain key → IsPlain value → Writes (.pair key value) (key ++ ":" ++ value)
  | followed {key value behind : String} : IsPlain key → IsPlain value → ',' ∉ behind.toList →
      Writes (.pair key value) (key ++ ":" ++ value ++ ":" ++ behind)
  | bare {text : String} : IsPlain text → Writes (.bare text) text

theorem FilterItem.Writes.noComma {item : FilterItem} {text : String} (h : item.Writes text) : ',' ∉ text.toList := by
  rcases h with ⟨hkey, hvalue⟩ | ⟨hkey, hvalue, hbehind⟩ | hplain
  · simp [hkey.noComma, hvalue.noComma]
  · simp [hkey.noComma, hvalue.noComma, hbehind]
  · exact hplain.noComma

theorem noComma_of_writes {items : List FilterItem} {texts : List String} (h : List.Forall₂ FilterItem.Writes items texts) :
    ∀ text ∈ texts, ',' ∉ text.toList := by
  induction h with
  | nil => simp
  | cons hitem _ ih => exact List.forall_mem_cons.2 ⟨hitem.noComma, ih⟩

theorem FilterItem.ofText_of_writes {item : FilterItem} {text : String} (h : item.Writes text) : ofText text = item := by
  rcases h with @⟨key, value, hkey, hvalue⟩ | @⟨key, value, behind, hkey, hvalue, -⟩ | hplain
  · have hsplit : splitText ':' (key ++ ":" ++ value) = [key, value] := by
      rw [splitText_eq_iff]
      refine ⟨by simp, by simp [hkey.noColon, hvalue.noColon], ?_⟩
      rw [String.intercalate_cons_cons, String.intercalate_singleton]
      rfl
    rw [ofText, hsplit]
  · obtain ⟨hne, hfree, hjoin⟩ := splitText_eq_iff.1 (rfl : splitText ':' behind = _)
    have hsplit : splitText ':' (key ++ ":" ++ value ++ ":" ++ behind) = key :: value :: splitText ':' behind := by
      obtain ⟨piece, pieces, hpieces⟩ := List.exists_cons_of_ne_nil hne
      rw [splitText_eq_iff]
      refine ⟨by simp, by simpa [hkey.noColon, hvalue.noColon] using hfree, ?_⟩
      rw [String.intercalate_cons_cons, hpieces, String.intercalate_cons_cons, ← hpieces, ← hjoin]
      simp only [String.append_assoc]
      rfl
    rw [ofText, hsplit]
  · have hsplit : splitText ':' text = [text] := by
      rw [splitText_eq_iff]
      exact ⟨by simp, by simp [hplain.noColon], String.intercalate_singleton.symm⟩
    rw [ofText, hsplit]

theorem FilterItem.ofText_eq_iff_writes {item : FilterItem} {text : String} (h : ',' ∉ text.toList) :
    ofText text = item ↔ item.Writes text := by
  refine ⟨?_, ofText_of_writes⟩
  rintro rfl
  obtain ⟨hne, hfree, hjoin⟩ := splitText_eq_iff.1 (rfl : splitText ':' text = _)
  rw [ofText]
  rcases hs : splitText ':' text with _ | ⟨key, _ | ⟨value, rest⟩⟩
  · exact absurd hs hne
  · rw [hs, String.intercalate_singleton] at hjoin
    rw [hs] at hfree
    subst hjoin
    exact .bare ⟨h, hfree _ List.mem_cons_self⟩
  · rw [hs] at hjoin hfree
    have hkey : ':' ∉ key.toList := hfree key (by simp)
    have hvalue : ':' ∉ value.toList := hfree value (by simp)
    rw [String.intercalate_cons_cons] at hjoin
    rcases rest with _ | ⟨next, rest⟩
    · rw [String.intercalate_singleton] at hjoin
      subst hjoin
      simp only [String.toList_append, List.mem_append, not_or] at h
      exact .pair ⟨h.1.1, hkey⟩ ⟨h.2, hvalue⟩
    · rw [String.intercalate_cons_cons, ← String.append_assoc, ← String.append_assoc] at hjoin
      -- what stands behind the second colon is one text again
      generalize (String.singleton ':').intercalate (next :: rest) = behind at hjoin
      subst hjoin
      simp only [String.toList_append, List.mem_append, not_or] at h
      exact .followed ⟨h.1.1.1.1, hkey⟩ ⟨h.1.1.2, hvalue⟩ h.2

/-! ## The order of first occurrence -/

theorem pairwise_eraseDups (xs : List String) : xs.eraseDups.Pairwise fun k l => xs.idxOf k < xs.idxOf l := by
  induction xs using List.reverseRecOn with
  | nil => simp
  | append_singleton xs x ih =>
    have hold : xs.eraseDups.Pairwise fun k l => (xs ++ [x]).idxOf k < (xs ++ [x]).idxOf l := by
      apply ih.imp_of_mem
      intro k l hk hl hkl
      rwa [List.idxOf_append_of_mem (List.mem_eraseDups.1 hk), List.idxOf_append_of_mem (List.mem_eraseDups.1 hl)]
    rw [eraseDups_concat, appended]
    split
    · exact hold
    · rename_i hnew
      rw [List.mem_eraseDups] at hnew
      rw [List.pairwise_append]
      refine ⟨hold, List.pairwise_singleton _ _, fun k hk l hl => ?_⟩
      obtain rfl := List.mem_singleton.1 hl
      rw [List.idxOf_append_of_mem (List.mem_eraseDups.1 hk), List.idxOf_append_of_notMem hnew]
      exact Nat.lt_add_right _ (List.idxOf_lt_length_iff.2 (List.mem_eraseDups.1 hk))

theorem eraseDups_eq_iff {xs keys : List String} : xs.eraseDups = keys ↔
    (∀ key, key ∈ keys ↔ key ∈ xs) ∧ keys.Pairwise fun k l => xs.idxOf k < xs.idxOf l := by
  constructor
  · rintro rfl
    exact ⟨fun _ => List.mem_eraseDups, pairwise_eraseDups xs⟩
  · rintro ⟨hmem, hpairwise⟩
    have hnodup : keys.Nodup := hpairwise.imp fun hlt heq => by simp [heq] at hlt
    have hperm : xs.eraseDups.Perm keys := by
      rw [List.perm_ext_iff_of_nodup (nodup_eraseDups xs) hnodup]
      intro key
      rw [List.mem_eraseDups, hmem]
    exact hperm.eq_of_pairwise (fun k l _ _ hkl hlk => absurd hkl (Nat.lt_asymm hlk)) (pairwise_eraseDups xs) hpairwise

/-! ## Collections -/

namespace FilterPairs

/-- A collection that a filter can hold: each key stands once and has some value. -/
structure IsCollection (groups : FilterPairs) : Prop where
  distinct : (groups.map Prod.fst).Nodup
  given : ∀ group ∈ groups, group.2 ≠ []
  plain : ∀ group ∈ groups, IsPlain group.1 ∧ ∀ value ∈ group.2, IsPlain value

/-- A row of pairs lists a collection: the values of each key in their order, and the keys in the order in which they first
stand in the row.  The pairs of different keys may be mixed. -/
structure IsListing (groups : FilterPairs) (pairs : List (String × String)) : Prop where
  known : ∀ pair ∈ pairs, pair.1 ∈ groups.map Prod.fst
  values : ∀ group ∈ groups, (pairs.filter fun pair => group.1 == pair.1).map Prod.snd = group.2
  order : (groups.map Prod.fst).Pairwise fun k l => (pairs.map Prod.fst).idxOf k < (pairs.map Prod.fst).idxOf l

/-- A filter spells a collection: it is a row of items with commas between, of which those that are pairs list it. -/
def IsSpelling (groups : FilterPairs) (filter : String) : Prop :=
  ∃ items texts, List.Forall₂ FilterItem.Writes items texts ∧ filter = ",".intercalate texts ∧
    groups.IsListing (items.filterMap FilterItem.pair?)

def gathered (pairs : List (String × String)) : FilterPairs :=
  (pairs.map Prod.fst).eraseDups.map fun key => (key, (pairs.filter fun pair => key == pair.1).map Prod.snd)

variable {groups : FilterPairs} {pairs : List (String × String)}

theorem map_fst_gathered (pairs : List (String × String)) :
    (gathered pairs).map Prod.fst = (pairs.map Prod.fst).eraseDups := by
  simp [gathered, Function.comp_def]

theorem isListing_gathered (pairs : List (String × String)) : (gathered pairs).IsListing pairs where
  known pair hpair := by
    rw [map_fst_gathered, List.mem_eraseDups]
    exact List.mem_map_of_mem hpair
  values group hgroup := by
    obtain ⟨key, -, rfl⟩ := List.mem_map.1 hgroup
    rfl
  order := by
    rw [map_fst_gathered]
    exact pairwise_eraseDups _

theorem IsListing.eq_gathered (h : groups.IsListing pairs) (given : ∀ group ∈ groups, group.2 ≠ []) :
    groups = gathered pairs := by
  have hkeys : (pairs.map Prod.fst).eraseDups = groups.map Prod.fst := by
    rw [eraseDups_eq_iff]
    refine ⟨fun key => ⟨fun hkey => ?_, fun hkey => ?_⟩, h.order⟩
    · obtain ⟨group, hgroup, rfl⟩ := List.mem_map.1 hkey
      -- a key has some value, and so it stands in some pair
      have hne := given group hgroup
      rw [← h.values group hgroup, Ne, List.map_eq_nil_iff, List.filter_eq_nil_iff] at hne
      push Not at hne
      obtain ⟨pair, hpair, hsame⟩ := hne
      rw [eq_of_beq hsame]
      exact List.mem_map_of_mem hpair
    · obtain ⟨pair, hpair, rfl⟩ := List.mem_map.1 hkey
      exact h.known pair hpair
  rw [gathered, hkeys, List.map_map]
  conv => lhs; rw [← List.map_id groups]
  apply List.map_congr_left
  intro group hgroup
  exact Prod.ext rfl (h.values group hgroup).symm

/-! ## Filters -/

theorem given_eq (filter : String) :
    given filter = ((splitText ',' filter).map FilterItem.ofText).filterMap FilterItem.pair? := by
  rw [given, filterItems]
  split
  · rename_i h
    rw [h]
    rfl
  · rfl

theorem writes_of_splitText (filter : String) :
    List.Forall₂ FilterItem.Writes ((splitText ',' filter).map FilterItem.ofText) (splitText ',' filter) := by
  obtain ⟨-, hfree, -⟩ := splitText_eq_iff.1 (rfl : splitText ',' filter = _)
  rw [List.forall₂_map_left_iff, List.forall₂_same]
  exact fun text htext => (FilterItem.ofText_eq_iff_writes (hfree text htext)).1 rfl

/-- **A row of items with commas between is read as its pairs**, and no item is at all what an empty one is. -/
theorem given_of_writes {items : List FilterItem} {texts : List String} (h : List.Forall₂ FilterItem.Writes items texts) :
    given (",".intercalate texts) = items.filterMap FilterItem.pair? := by
  by_cases hne : texts = []
  · subst hne
    cases h
    rfl
  · have hsplit : splitText ',' (",".intercalate texts) = texts := by
      rw [splitText_eq_iff]
      exact ⟨hne, noComma_of_writes h, rfl⟩
    have hitems : texts.map FilterItem.ofText = items := by
      rw [← List.forall₂_eq_eq_eq, List.forall₂_map_left_iff]
      exact h.flip.imp fun text item hitem => FilterItem.ofText_of_writes hitem
    rw [given_eq, hsplit, hitems]

theorem isPlain_of_mem_given {filter : String} {pair : String × String} (h : pair ∈ given filter) :
    IsPlain pair.1 ∧ IsPlain pair.2 := by
  rw [given_eq] at h
  obtain ⟨item, hitem, hpair⟩ := List.mem_filterMap.1 h
  obtain ⟨text, htext, rfl⟩ := List.mem_map.1 hitem
  have hfree := (splitText_eq_iff.1 (rfl : splitText ',' filter = _)).2.1 text htext
  have hwrites := (FilterItem.ofText_eq_iff_writes hfree).1 rfl
  generalize FilterItem.ofText text = item at hwrites hpair
  cases hwrites with
  | pair hkey hvalue | followed hkey hvalue =>
    obtain rfl := Option.some.inj hpair
    exact ⟨hkey, hvalue⟩
  | bare => cases hpair

theorem isCollection_ofText (filter : String) : (ofText filter).IsCollection where
  distinct := nodup_keys_ofText filter
  given _ hgroup := ne_nil_of_mem_ofText hgroup
  plain group hgroup := by
    rw [ofText_eq] at hgroup
    obtain ⟨key, hkey, rfl⟩ := List.mem_map.1 hgroup
    obtain ⟨pair, hpair, rfl⟩ := List.mem_map.1 (List.mem_eraseDups.1 hkey)
    refine ⟨(isPlain_of_mem_given hpair).1, fun value hvalue => ?_⟩
    obtain ⟨other, hother, rfl⟩ := List.mem_map.1 hvalue
    exact (isPlain_of_mem_given (List.mem_filter.1 hother).1).2

/-- **A filter is read as a collection exactly if it spells it**: the pairs of the filter list the collection, whatever
stands between them and behind their second colons.  So every filter spells the collection that it is read as. -/
theorem ofText_eq_iff {groups : FilterPairs} {filter : String} :
    ofText filter = groups ↔ groups.IsCollection ∧ groups.IsSpelling filter := by
  constructor
  · rintro rfl
    refine ⟨isCollection_ofText filter, _, _, writes_of_splitText filter, ?_, ?_⟩
    · exact (splitText_eq_iff.1 rfl).2.2
    · rw [← given_eq, ofText_eq]
      exact isListing_gathered (FilterPairs.given filter)
  · rintro ⟨hcollection, items, texts, hwrites, rfl, hlisting⟩
    rw [ofText_eq, given_of_writes hwrites]
    exact (hlisting.eq_gathered hcollection.given).symm

example : ofText "tags:x:y,,height:12,tags:,:" = [("tags", ["x", ""]), ("height", ["12"]), ("", [""])] := by
  decide +kernel

end FilterPairs
end ListQuery
