import ListQuery.Proofs.ContentEquality
import ListQuery.Proofs.Success
import ListQuery.Proofs.WrittenScalars
/-!
# Canonical texts are read back

The reader gives back the value that a canonical text was written from, with the entries of each map in the order of their
keys.  `Written` says so of one reader and one part of a text; it passes on from parts to rows of parts with commas between
(`readItems_commaSeparated`, `readEntries_commaSeparated`), and so by the structure of values to every value that JSON has
a form for.  Main statements: `read_canonical` and `canonical_eq_iff`.
-/
namespace ListQuery

namespace Value

mutual

/-- Whether a value is built from null, truth values, integers that are not too long, texts, lists and maps. -/
def isPlain : Value → Bool
  | null | bool _ | str _ => true
  | int n => decide ((decimal n.natAbs).length ≤ Json.maxIntegerDigits)
  | list items => allPlain items
  | map entries => entriesPlain entries
  | _ => false

def allPlain : List Value → Bool
  | [] => true
  | v :: rest => isPlain v && allPlain rest

def entriesPlain : List (String × Value) → Bool
  | [] => true
  | (_, v) :: rest => isPlain v && entriesPlain rest

end

mutual

def levels : Value → Nat
  | list items => itemLevels items + 1
  | map entries => entryLevels entries + 1
  | _ => 0

def itemLevels : List Value → Nat
  | [] => 0
  | v :: rest => max (levels v) (itemLevels rest)

def entryLevels : List (String × Value) → Nat
  | [] => 0
  | (_, v) :: rest => max (levels v) (entryLevels rest)

end

/-- A value for which its canonical text stands: JSON has a form for all that it is built from, no map in it has a key twice,
and it is no deeper than containers are read. -/
structure Writable (v : Value) : Prop where
  plain : v.isPlain = true
  distinct : v.hasDistinctKeys = true
  shallow : v.levels ≤ Json.maxDepth

/-! ## Maps of entries -/

theorem insert_of_notMem {key : String} {v : Value} : ∀ {entries : List (String × Value)}, key ∉ Entries.keys entries →
    insert key v entries = entries ++ [(key, v)]
  | [], _ => rfl
  | (k, w) :: rest, h => by
    have hne : k ≠ key := fun hk => h (hk ▸ List.mem_cons_self)
    have ih : insert key v rest = rest ++ [(key, v)] := insert_of_notMem fun hmem => h (List.mem_cons_of_mem k hmem)
    unfold insert at ih ⊢
    rw [Entries.alter, if_neg (by simpa using hne), ih, List.cons_append]

theorem foldl_insert_of_nodup : ∀ (entries base : List (String × Value)), (Entries.keys (base ++ entries)).Nodup →
    entries.foldl (fun m e => insert e.1 e.2 m) base = base ++ entries
  | [], base, _ => (List.append_nil base).symm
  | (key, v) :: rest, base, h => by
    have hsplit : base ++ (key, v) :: rest = (base ++ [(key, v)]) ++ rest := by simp
    have hkey : key ∉ Entries.keys base := by
      unfold Entries.keys at h ⊢
      rw [List.map_append, List.nodup_append] at h
      exact fun hmem => h.2.2 key hmem key List.mem_cons_self rfl
    rw [List.foldl_cons, insert_of_notMem hkey, hsplit]
    exact foldl_insert_of_nodup rest _ (hsplit ▸ h)

theorem mapOf_of_nodup {entries : List (String × Value)} (h : (Entries.keys entries).Nodup) : mapOf entries = entries :=
  foldl_insert_of_nodup entries [] h

end Value

namespace Json

open Value (isPlain hasDistinctKeys levels)

/-! ## Parts of a text -/

def neverFirst : List Char := [' ', '\t', '\n', '\r', ']', '\x7d', '\uFEFF']

/-- A part of a text from which a reader gets a value, whatever may stand behind a value. -/
structure Written {α : Type} (reader : Reader α) (row : List Char) (a : α) : Prop where
  first : ∃ c cs, row = c :: cs ∧ c ∉ neverFirst
  read : ∀ rest, EndsValue rest → reader (row ++ rest) = .ok (a, rest)

theorem skipBlank_of_first {c : Char} (hc : c ∉ neverFirst) (cs : List Char) : skipBlank (c :: cs) = c :: cs := by
  unfold skipBlank
  refine List.dropWhile_cons_of_neg fun hblank => hc ?_
  unfold isJsonBlank at hblank
  simp only [Bool.or_eq_true, beq_iff_eq] at hblank
  rcases hblank with ((rfl | rfl) | rfl) | rfl <;> decide

theorem skipBlank_blank (cs : List Char) : skipBlank (' ' :: cs) = skipBlank cs := List.dropWhile_cons_of_pos rfl

theorem Written.skipBlank {α : Type} {reader : Reader α} {row : List Char} {a : α} (h : Written reader row a)
    (rest : List Char) : skipBlank (row ++ rest) = row ++ rest := by
  obtain ⟨c, cs, rfl, hc⟩ := h.first
  exact skipBlank_of_first hc (cs ++ rest)

/-! ## Rows of parts -/

theorem commaSeparated_cons_cons (r s : List Char) (rows : List (List Char)) :
    commaSeparated (r :: s :: rows) = r ++ ',' :: ' ' :: commaSeparated (s :: rows) := rfl

theorem length_le_commaSeparated_of_mem {row : List Char} : ∀ {rows : List (List Char)}, row ∈ rows →
    row.length ≤ (commaSeparated rows).length
  | [r], h => by
    rw [List.mem_singleton.1 h]
    exact Nat.le_refl _
  | r :: s :: rows, h => by
    rw [commaSeparated_cons_cons, List.length_append, List.length_cons, List.length_cons]
    rcases List.mem_cons.1 h with rfl | h
    · omega
    · have ih := length_le_commaSeparated_of_mem h
      omega

theorem length_le_length_commaSeparated : ∀ rows : List (List Char), rows.length ≤ (commaSeparated rows).length + 1
  | [] => Nat.zero_le _
  | [_] => Nat.le_add_left 1 _
  | r :: s :: rows => by
    have ih := length_le_length_commaSeparated (s :: rows)
    rw [commaSeparated_cons_cons]
    simp only [List.length_append, List.length_cons] at ih ⊢
    omega

theorem endsValue_comma (rest : List Char) : EndsValue (',' :: rest) := fun _ hc => .inl (Option.some.inj hc).symm

theorem endsValue_bracket (rest : List Char) : EndsValue (']' :: rest) := fun _ hc => .inr (.inl (Option.some.inj hc).symm)

theorem endsValue_brace (rest : List Char) : EndsValue ('\x7d' :: rest) := fun _ hc => .inr (.inr (Option.some.inj hc).symm)

section

variable {α : Type} {reader : Reader α} {rows : List (List Char)} {as : List α}

theorem exists_commaSeparated (h : List.Forall₂ (Written reader) rows as) (hne : rows ≠ []) :
    ∃ c cs, commaSeparated rows = c :: cs ∧ c ∉ neverFirst := by
  cases h with
  | nil => exact absurd rfl hne
  | @cons row a rows as hrow hrows =>
    obtain ⟨c, cs, rfl, hc⟩ := hrow.first
    cases hrows with
    | nil => exact ⟨c, cs, rfl, hc⟩
    | cons => exact ⟨c, _, rfl, hc⟩

theorem skipBlank_commaSeparated (h : List.Forall₂ (Written reader) rows as) (hne : rows ≠ []) (rest : List Char) :
    skipBlank (commaSeparated rows ++ rest) = commaSeparated rows ++ rest := by
  obtain ⟨c, cs, hcs, hc⟩ := exists_commaSeparated h hne
  rw [hcs]
  exact skipBlank_of_first hc (cs ++ rest)

theorem commaSeparated_ne_cons (h : List.Forall₂ (Written reader) rows as) (hne : rows ≠ []) {c : Char}
    (hc : c ∈ neverFirst) (rest : List Char) : ∀ more, commaSeparated rows ++ rest ≠ c :: more := by
  obtain ⟨d, cs, hcs, hd⟩ := exists_commaSeparated h hne
  intro more heq
  rw [hcs] at heq
  exact hd ((List.cons.inj heq).1 ▸ hc)

end

theorem readItems_last {item : Reader Value} {cs rest : List Char} {v : Value} (h : item cs = .ok (v, ']' :: rest))
    (fuel : Nat) : readItems item (fuel + 1) cs = .ok ([v], rest) := by
  rw [readItems, h]
  rfl

theorem readItems_comma {item : Reader Value} {cs more rest : List Char} {v : Value} {vs : List Value} {fuel : Nat}
    (h : item cs = .ok (v, ',' :: ' ' :: more)) (hmore : skipBlank more = more)
    (hvs : readItems item fuel more = .ok (vs, rest)) : readItems item (fuel + 1) cs = .ok (v :: vs, rest) := by
  have hskip : skipBlank (',' :: ' ' :: more) = ',' :: ' ' :: more := skipBlank_of_first (by decide) _
  rw [readItems, h]
  simp only [ok_bind, hskip, skipBlank_blank, hmore, hvs, pure_eq_ok]

theorem readItems_commaSeparated {item : Reader Value} (rest : List Char) : ∀ {rows : List (List Char)} {vs : List Value}
    {fuel : Nat}, List.Forall₂ (Written item) rows vs → rows ≠ [] → rows.length ≤ fuel →
      readItems item fuel (commaSeparated rows ++ ']' :: rest) = .ok (vs, rest)
  | [], _, _, _, hne, _ => absurd rfl hne
  | _ :: _, _, 0, _, _, hfuel => absurd hfuel (Nat.not_succ_le_zero _)
  | [row], _, fuel + 1, .cons hrow .nil, _, _ => readItems_last (hrow.read _ (endsValue_bracket rest)) fuel
  | row :: next :: rows, _, fuel + 1, .cons hrow hrows, _, hfuel => by
    have hne : next :: rows ≠ [] := List.cons_ne_nil _ _
    have ih := readItems_commaSeparated rest hrows hne (Nat.le_of_succ_le_succ hfuel)
    rw [commaSeparated_cons_cons, List.append_assoc]
    exact readItems_comma (hrow.read _ (endsValue_comma _)) (skipBlank_commaSeparated hrows hne _) ih

theorem readEntries_last {entry : Reader (String × Value)} {cs rest : List Char} {e : String × Value}
    (h : entry cs = .ok (e, '\x7d' :: rest)) (fuel : Nat) : readEntries entry (fuel + 1) cs = .ok ([e], rest) := by
  rw [readEntries, h]
  rfl

theorem readEntries_comma {entry : Reader (String × Value)} {cs more rest : List Char} {e : String × Value}
    {es : List (String × Value)} {fuel : Nat} (h : entry cs = .ok (e, ',' :: ' ' :: more)) (hmore : skipBlank more = more)
    (hes : readEntries entry fuel more = .ok (es, rest)) : readEntries entry (fuel + 1) cs = .ok (e :: es, rest) := by
  have hskip : skipBlank (',' :: ' ' :: more) = ',' :: ' ' :: more := skipBlank_of_first (by decide) _
  rw [readEntries, h]
  simp only [ok_bind, hskip, skipBlank_blank, hmore, hes, pure_eq_ok]

theorem readEntries_commaSeparated {entry : Reader (String × Value)} (rest : List Char) : ∀ {rows : List (List Char)}
    {es : List (String × Value)} {fuel : Nat}, List.Forall₂ (Written entry) rows es → rows ≠ [] → rows.length ≤ fuel →
      readEntries entry fuel (commaSeparated rows ++ '\x7d' :: rest) = .ok (es, rest)
  | [], _, _, _, hne, _ => absurd rfl hne
  | _ :: _, _, 0, _, _, hfuel => absurd hfuel (Nat.not_succ_le_zero _)
  | [row], _, fuel + 1, .cons hrow .nil, _, _ => readEntries_last (hrow.read _ (endsValue_brace rest)) fuel
  | row :: next :: rows, _, fuel + 1, .cons hrow hrows, _, hfuel => by
    have hne : next :: rows ≠ [] := List.cons_ne_nil _ _
    have ih := readEntries_commaSeparated rest hrows hne (Nat.le_of_succ_le_succ hfuel)
    rw [commaSeparated_cons_cons, List.append_assoc]
    exact readEntries_comma (hrow.read _ (endsValue_comma _)) (skipBlank_commaSeparated hrows hne _) ih

/-! ## Values -/

section

variable {fuel depth : Nat}

theorem readWith_scalar (fuel : Nat) (inner : Option (Reader Value)) {c : Char} (hc : c ∉ ['"', '[', '{']) (cs : List Char) :
    readWith fuel inner (c :: cs) = readScalar (c :: cs) := by
  unfold readWith
  split
  · rename_i heq
    exact absurd (by rw [(List.cons.inj heq).1]; decide) hc
  · rename_i heq
    exact absurd (by rw [(List.cons.inj heq).1]; decide) hc
  · rename_i heq
    exact absurd (by rw [(List.cons.inj heq).1]; decide) hc
  · rfl

theorem readValue_eq (fuel : Nat) : ∀ depth : Nat, ∃ inner, readValue fuel depth = readWith fuel inner
  | 0 => ⟨none, rfl⟩
  | depth + 1 => ⟨some (readValue fuel depth), rfl⟩

theorem written_scalar {row : List Char} {v : Value} {c : Char} {cs : List Char} (hrow : row = c :: cs)
    (hc : c ∉ neverFirst ++ ['"', '[', '{']) (hread : ∀ rest, EndsValue rest → readScalar (row ++ rest) = .ok (v, rest)) :
    Written (readValue fuel depth) row v where
  first := ⟨c, cs, hrow, fun h => hc (List.mem_append_left _ h)⟩
  read rest hrest := by
    obtain ⟨inner, hinner⟩ := readValue_eq fuel depth
    have hscalar := readWith_scalar fuel inner (fun h => hc (List.mem_append_right _ h)) (cs ++ rest)
    rw [hinner, ← hread rest hrest, hrow]
    exact hscalar

theorem written_int {n : Int} (hn : (decimal n.natAbs).length ≤ maxIntegerDigits) :
    Written (readValue fuel depth) (signedDecimal n) (.int n) := by
  obtain ⟨c, cs, hcs, hdigit, -⟩ := decimal_eq_cons n.natAbs
  have hread : ∀ rest, EndsValue rest → readScalar (signedDecimal n ++ rest) = .ok (.int n, rest) :=
    fun rest hrest => readScalar_signedDecimal hn hrest
  have hsigned := signedDecimal_eq n
  rw [hcs] at hsigned
  by_cases h : n < 0
  · rw [if_pos h] at hsigned
    exact written_scalar hsigned (by decide) hread
  · rw [if_neg h] at hsigned
    refine written_scalar hsigned (fun hc => ?_) hread
    have hnone : (neverFirst ++ ['"', '[', '{']).all (fun d => !d.isDigit) = true := rfl
    have hnot := List.all_eq_true.1 hnone c hc
    rw [hdigit] at hnot
    cases hnot

theorem written_str {s : String} (hfuel : (stringChars s).length ≤ fuel) :
    Written (readValue fuel depth) (stringChars s) (.str s) where
  first := ⟨'"', _, rfl, by decide⟩
  read rest _ := by
    obtain ⟨inner, hinner⟩ := readValue_eq fuel depth
    rw [hinner, stringChars_eq, List.cons_append, readWith, readString_stringChars hfuel, ok_bind]
    dsimp only
    rw [String.ofList_toList]
    rfl

theorem readWith_items {item : Reader Value} {cs rest : List Char} {vs : List Value} (hskip : skipBlank cs = cs)
    (hfirst : ∀ more, cs ≠ ']' :: more) (h : readItems item fuel cs = .ok (vs, rest)) :
    readWith fuel (some item) ('[' :: cs) = .ok (.list vs, rest) := by
  -- `hfirst` says that the list is not empty
  simp only [readWith, hskip, h, ok_bind, pure_eq_ok]

theorem readWith_entries {item : Reader Value} {cs rest : List Char} {es : List (String × Value)}
    (hskip : skipBlank cs = cs) (hfirst : ∀ more, cs ≠ '\x7d' :: more)
    (h : readEntries (readEntry fuel item) fuel cs = .ok (es, rest)) :
    readWith fuel (some item) ('{' :: cs) = .ok (.map (Value.mapOf es), rest) := by
  simp only [readWith, hskip, h, ok_bind, pure_eq_ok]

theorem written_list {rows : List (List Char)} {vs : List Value}
    (h : List.Forall₂ (Written (readValue fuel depth)) rows vs) (hfuel : rows.length ≤ fuel) :
    Written (readValue fuel (depth + 1)) ('[' :: commaSeparated rows ++ [']']) (.list vs) where
  first := ⟨'[', _, rfl, by decide⟩
  read rest _ := by
    rw [List.cons_append, List.cons_append, List.append_assoc]
    by_cases hne : rows = []
    · subst hne
      cases h
      rfl
    · apply readWith_items (skipBlank_commaSeparated h hne _) (commaSeparated_ne_cons h hne (by decide) _)
      exact readItems_commaSeparated rest h hne hfuel

theorem written_map {rows : List (List Char)} {es : List (String × Value)}
    (h : List.Forall₂ (Written (readEntry fuel (readValue fuel depth))) rows es) (hfuel : rows.length ≤ fuel)
    (hnd : (Entries.keys es).Nodup) :
    Written (readValue fuel (depth + 1)) ('{' :: commaSeparated rows ++ ['\x7d']) (.map es) where
  first := ⟨'{', _, rfl, by decide⟩
  read rest _ := by
    rw [List.cons_append, List.cons_append, List.append_assoc]
    by_cases hne : rows = []
    · subst hne
      cases h
      rfl
    · have hread := readWith_entries (skipBlank_commaSeparated h hne _) (commaSeparated_ne_cons h hne (by decide) _)
        (readEntries_commaSeparated rest h hne hfuel)
      rw [Value.mapOf_of_nodup hnd] at hread
      exact hread

theorem written_entry {key : String} {text : List Char} {v : Value} (h : Written (readValue fuel depth) text v)
    (hfuel : (stringChars key).length ≤ fuel) :
    Written (readEntry fuel (readValue fuel depth)) (stringChars key ++ ':' :: ' ' :: text) (key, v) where
  first := ⟨'"', _, rfl, by decide⟩
  read rest hrest := by
    have hcolon : skipBlank (':' :: ' ' :: (text ++ rest)) = ':' :: ' ' :: (text ++ rest) :=
      skipBlank_of_first (by decide) _
    rw [stringChars_eq, List.append_assoc, List.cons_append, readEntry, List.cons_append, List.cons_append,
      readString_stringChars hfuel]
    simp only [ok_bind, hcolon, skipBlank_blank, h.skipBlank, h.read rest hrest, String.ofList_toList, pure_eq_ok]

end

/-! ## Whole values -/

theorem canonicalEntries_eq : ∀ entries : List (String × Value),
    canonicalEntries entries = entries.map fun e => (e.1, canonicalChars e.2)
  | [] => rfl
  | (key, v) :: rest => congrArg ((key, canonicalChars v) :: ·) (canonicalEntries_eq rest)

theorem sortEntries_canonicalEntries (entries : List (String × Value)) :
    sortEntries (canonicalEntries entries) = (Value.sortByKey entries).map fun e => (e.1, canonicalChars e.2) := by
  unfold sortEntries Value.sortByKey
  rw [canonicalEntries_eq]
  symm
  apply List.map_mergeSort
  intro d _ e _
  rfl

def entryTexts (entries : List (String × Value)) : List (List Char) :=
  (Value.sortByKey entries).map fun e => stringChars e.1 ++ ':' :: ' ' :: canonicalChars e.2

theorem canonicalChars_map (entries : List (String × Value)) :
    canonicalChars (.map entries) = '{' :: commaSeparated (entryTexts entries) ++ ['\x7d'] := by
  rw [canonicalChars, sortEntries_canonicalEntries, List.map_map]
  rfl

theorem length_le_of_mem_entryTexts {entries : List (String × Value)} {e : String × Value} (he : e ∈ entries) :
    (stringChars e.1).length ≤ (commaSeparated (entryTexts entries)).length ∧
      (canonicalChars e.2).length ≤ (commaSeparated (entryTexts entries)).length := by
  have hmem : stringChars e.1 ++ ':' :: ' ' :: canonicalChars e.2 ∈ entryTexts entries :=
    List.mem_map.2 ⟨e, (Value.sortByKey_perm entries).mem_iff.2 he, rfl⟩
  have hlength := length_le_commaSeparated_of_mem hmem
  simp only [List.length_append, List.length_cons] at hlength
  omega

mutual

theorem written_canonicalChars : ∀ {v : Value} {fuel depth : Nat}, isPlain v = true → hasDistinctKeys v = true →
    levels v ≤ depth → (canonicalChars v).length ≤ fuel → Written (readValue fuel depth) (canonicalChars v) v.inKeyOrder
  | .null, _, _, _, _, _, _ => written_scalar rfl (by decide) fun _ _ => rfl
  | .bool true, _, _, _, _, _, _ => written_scalar rfl (by decide) fun _ _ => rfl
  | .bool false, _, _, _, _, _, _ => written_scalar rfl (by decide) fun _ _ => rfl
  | .int n, _, _, hplain, _, _, _ => written_int (of_decide_eq_true hplain)
  | .str s, _, _, _, _, _, hfuel => written_str hfuel
  | .list items, fuel, depth + 1, hplain, hkeys, hlevels, hfuel => by
    -- what suffices for the whole text suffices for its parts
    rw [canonicalChars] at hfuel ⊢
    simp only [List.cons_append, List.length_cons, List.length_append] at hfuel
    have hcount := length_le_length_commaSeparated (canonicalItems items)
    refine written_list (written_canonicalItems hplain hkeys (Nat.le_of_succ_le_succ hlevels) fun row hrow => ?_) (by omega)
    have hrow := length_le_commaSeparated_of_mem hrow
    omega
  | .map entries, fuel, depth + 1, hplain, hkeys, hlevels, hfuel => by
    rw [hasDistinctKeys, Bool.and_eq_true, decide_eq_true_eq] at hkeys
    rw [canonicalChars_map] at hfuel ⊢
    simp only [List.cons_append, List.length_cons, List.length_append] at hfuel
    have hcount := length_le_length_commaSeparated (entryTexts entries)
    have htexts : ∀ e ∈ entries, (stringChars e.1).length ≤ fuel ∧ (canonicalChars e.2).length ≤ fuel := by
      intro e he
      have hlength := length_le_of_mem_entryTexts he
      omega
    have hwritten := written_canonicalEntries hplain hkeys.2 (Nat.le_of_succ_le_succ hlevels) fun e he => (htexts e he).2
    rw [Value.inKeyOrder]
    refine written_map ?_ (by omega) (Value.nodup_sortByKey hkeys.1)
    rw [Value.sortByKey_entriesInKeyOrder, entryTexts, List.forall₂_map_left_iff, List.forall₂_map_right_iff,
      List.forall₂_same]
    intro e he
    rw [(Value.sortByKey_perm entries).mem_iff] at he
    exact written_entry (hwritten e he) (htexts e he).1

theorem written_canonicalItems : ∀ {items : List Value} {fuel depth : Nat}, Value.allPlain items = true →
    Value.allDistinctKeys items = true → Value.itemLevels items ≤ depth →
    (∀ row ∈ canonicalItems items, row.length ≤ fuel) →
      List.Forall₂ (Written (readValue fuel depth)) (canonicalItems items) (Value.itemsInKeyOrder items)
  | [], _, _, _, _, _, _ => .nil
  | v :: rest, fuel, depth, hplain, hkeys, hlevels, hfuel => by
    rw [Value.allPlain, Bool.and_eq_true] at hplain
    rw [Value.allDistinctKeys, Bool.and_eq_true] at hkeys
    rw [Value.itemLevels, Nat.max_le] at hlevels
    rw [canonicalItems] at hfuel ⊢
    refine .cons (written_canonicalChars hplain.1 hkeys.1 hlevels.1 (hfuel _ List.mem_cons_self)) ?_
    exact written_canonicalItems hplain.2 hkeys.2 hlevels.2 fun row hrow => hfuel row (List.mem_cons_of_mem _ hrow)

theorem written_canonicalEntries : ∀ {entries : List (String × Value)} {fuel depth : Nat},
    Value.entriesPlain entries = true → Value.entriesDistinctKeys entries = true → Value.entryLevels entries ≤ depth →
    (∀ e ∈ entries, (canonicalChars e.2).length ≤ fuel) →
      ∀ e ∈ entries, Written (readValue fuel depth) (canonicalChars e.2) e.2.inKeyOrder
  | [], _, _, _, _, _, _, e, he => absurd he List.not_mem_nil
  | (key, v) :: rest, fuel, depth, hplain, hkeys, hlevels, hfuel, e, he => by
    rw [Value.entriesPlain, Bool.and_eq_true] at hplain
    rw [Value.entriesDistinctKeys, Bool.and_eq_true] at hkeys
    rw [Value.entryLevels, Nat.max_le] at hlevels
    rcases List.mem_cons.1 he with rfl | he
    · exact written_canonicalChars hplain.1 hkeys.1 hlevels.1 (hfuel _ List.mem_cons_self)
    · exact written_canonicalEntries hplain.2 hkeys.2 hlevels.2 (fun e he => hfuel e (List.mem_cons_of_mem _ he)) e he

end

/-- **A canonical text is read as the value that it was written from**, with the entries of each map in the order of their
keys. -/
theorem read_canonical {v : Value} (h : v.Writable) : read (canonical v) = .ok v.inKeyOrder := by
  have hwritten := written_canonicalChars h.plain h.distinct h.shallow (Nat.le_refl _)
  have hread := hwritten.read [] nofun
  have hskip := hwritten.skipBlank []
  rw [List.append_nil] at hread hskip
  unfold read canonical
  rw [String.toList_ofList]
  unfold readChars
  split
  · rename_i rest heq
    obtain ⟨c, cs, hcs, hc⟩ := hwritten.first
    rw [hcs] at heq
    exact absurd ((List.cons.inj heq).1 ▸ by decide) hc
  · rw [hskip, hread]
    rfl

/-! ## Equal texts -/

mutual

/-- The canonical text does not tell in which order the entries of a map stand. -/
theorem canonicalChars_inKeyOrder : ∀ {v : Value}, isPlain v = true → canonicalChars v.inKeyOrder = canonicalChars v
  | .null, _ | .bool _, _ | .int _, _ | .str _, _ => rfl
  | .list items, h => by
    rw [Value.inKeyOrder, canonicalChars, canonicalChars, canonicalItems_inKeyOrder h]
  | .map entries, h => by
    have hvalues := canonicalChars_entriesInKeyOrder h
    have htexts : entryTexts (Value.sortByKey (Value.entriesInKeyOrder entries)) = entryTexts entries := by
      unfold entryTexts
      rw [Value.sortByKey_sortByKey, Value.sortByKey_entriesInKeyOrder, List.map_map]
      refine List.map_congr_left fun e he => ?_
      rw [Function.comp_apply, hvalues e ((Value.sortByKey_perm entries).mem_iff.1 he)]
    rw [Value.inKeyOrder, canonicalChars_map, canonicalChars_map, htexts]

theorem canonicalItems_inKeyOrder : ∀ {items : List Value}, Value.allPlain items = true →
    canonicalItems (Value.itemsInKeyOrder items) = canonicalItems items
  | [], _ => rfl
  | v :: rest, h => by
    rw [Value.allPlain, Bool.and_eq_true] at h
    rw [Value.itemsInKeyOrder, canonicalItems, canonicalItems, canonicalChars_inKeyOrder h.1, canonicalItems_inKeyOrder h.2]

theorem canonicalChars_entriesInKeyOrder : ∀ {entries : List (String × Value)}, Value.entriesPlain entries = true →
    ∀ e ∈ entries, canonicalChars e.2.inKeyOrder = canonicalChars e.2
  | [], _, e, he => absurd he List.not_mem_nil
  | (key, v) :: rest, h, e, he => by
    rw [Value.entriesPlain, Bool.and_eq_true] at h
    rcases List.mem_cons.1 he with rfl | he
    · exact canonicalChars_inKeyOrder h.1
    · exact canonicalChars_entriesInKeyOrder h.2 e he

end

/-- **Two values have one canonical text exactly if they have the same content.** -/
theorem canonical_eq_iff {v w : Value} (hv : v.Writable) (hw : w.Writable) :
    canonical v = canonical w ↔ v.sameContent w = true := by
  rw [Value.sameContent_iff hv.distinct hw.distinct]
  constructor
  · intro h
    have hread := read_canonical hv
    rw [h, read_canonical hw] at hread
    exact (Except.ok.inj hread).symm
  · intro h
    unfold canonical
    rw [← canonicalChars_inKeyOrder hv.plain, h, canonicalChars_inKeyOrder hw.plain]

end Json
end ListQuery
