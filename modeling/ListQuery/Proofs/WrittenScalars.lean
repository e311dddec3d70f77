import ListQuery.Json.Canonical
import ListQuery.Json.Reader
/-!
# Strings and integers written and read

The reader gives back the string or the integer that a canonical text was written from, and the text behind it.  A
character may be written as itself, by a short escape, or by one or two escapes of sixteen bits; a numeral has no needless
zero, so that it is read up to its end.  Main statements: `readString_stringChars` and `readScalar_signedDecimal`.
-/
namespace ListQuery

/-! ## Numerals -/

theorem digitValue?_digitChar : ∀ d < 10, digitValue? d.digitChar = some d := by decide

theorem ofDigits_concat (cs : List Char) (c : Char) : ofDigits (cs ++ [c]) = 10 * ofDigits cs + (digitValue? c).getD 0 := by
  unfold ofDigits
  rw [List.foldl_append]
  rfl

theorem ofDigits_decimal (n : Nat) : ofDigits (decimal n) = n := by
  unfold decimal
  rw [Nat.toDigits_eq_if (by decide)]
  by_cases h : n < 10
  · rw [if_pos h]
    simp [ofDigits, digitValue?_digitChar n h]
  · have ih : ofDigits (Nat.toDigits 10 (n / 10)) = n / 10 := ofDigits_decimal (n / 10)
    rw [if_neg h, ofDigits_concat, ih, digitValue?_digitChar _ (Nat.mod_lt n (by decide))]
    exact Nat.div_add_mod n 10
termination_by n
decreasing_by omega

theorem isDigit_iff {c : Char} : c.isDigit = true ↔ 48 ≤ c.toNat ∧ c.toNat ≤ 57 := by
  have hzero : '0'.toNat = 48 := rfl
  have hnine : '9'.toNat = 57 := rfl
  rw [← hzero, ← hnine]
  simp [Char.isDigit, UInt32.le_iff_toNat_le]

theorem isDigit_of_mem_decimal {n : Nat} {c : Char} (h : c ∈ decimal n) : c.isDigit = true :=
  Nat.isDigit_of_mem_toDigits (by decide) (by decide) h

theorem decimal_eq_cons (n : Nat) : ∃ c cs, decimal n = c :: cs ∧ c.isDigit = true ∧ (c = '0' → n = 0) := by
  unfold decimal
  rw [Nat.toDigits_eq_if (by decide)]
  by_cases h : n < 10
  · rw [if_pos h]
    refine ⟨n.digitChar, [], rfl, ?_, Nat.digitChar_eq_zero.1⟩
    rw [Nat.isDigit_digitChar, decide_eq_true h]
  · obtain ⟨c, cs, hcs, hdigit, hzero⟩ := decimal_eq_cons (n / 10)
    unfold decimal at hcs
    rw [if_neg h, hcs]
    refine ⟨c, cs ++ [(n % 10).digitChar], rfl, hdigit, fun hc => ?_⟩
    -- what stands in front of the last digit is not zero
    have := hzero hc
    omega
termination_by n
decreasing_by omega

theorem digitRun_append {digit : Char → Bool} {ds rest : List Char} (hds : ∀ c ∈ ds, digit c = true)
    (hrest : ∀ c ∈ rest.head?, digit c = false) : digitRun digit (ds ++ rest) = (ds, rest) := by
  unfold digitRun
  rw [List.takeWhile_append_of_pos hds, List.dropWhile_append_of_pos hds]
  cases rest with
  | nil => simp
  | cons c cs => simp [hrest c rfl]

theorem wholePart?_decimal {n : Nat} {rest : List Char} (hrest : ∀ c ∈ rest.head?, c.isDigit = false) :
    wholePart? (decimal n ++ rest) = some (decimal n, rest) := by
  obtain ⟨c, cs, hcs, -, hzero⟩ := decimal_eq_cons n
  by_cases hc : c = '0'
  · rw [hzero hc]
    rfl
  · have hrun : digitRun Char.isDigit (decimal n ++ rest) = (decimal n, rest) :=
      digitRun_append (fun d hd => isDigit_of_mem_decimal hd) hrest
    unfold wholePart?
    split
    · rename_i behind heq
      rw [hcs] at heq
      exact absurd (List.cons.inj heq).1 hc
    · rw [hrun, hcs]

theorem toInt_signedDecimal (n : Int) : Numeral.toInt ⟨decide (n < 0), decimal n.natAbs, [], 0⟩ = n := by
  unfold Numeral.toInt
  rw [ofDigits_decimal]
  by_cases h : n < 0
  · rw [decide_eq_true h, if_pos rfl]
    omega
  · rw [decide_eq_false h, if_neg Bool.false_ne_true]
    omega

theorem signedDecimal_eq (n : Int) : signedDecimal n = if n < 0 then '-' :: decimal n.natAbs else decimal n.natAbs := by
  cases n with
  | ofNat m => rfl
  | negSucc m => exact (if_pos (Int.negSucc_lt_zero m)).symm

theorem minusPart_signedDecimal (n : Int) (rest : List Char) :
    minusPart (signedDecimal n ++ rest) = (decide (n < 0), decimal n.natAbs ++ rest) := by
  rw [signedDecimal_eq]
  by_cases h : n < 0
  · rw [if_pos h, decide_eq_true h]
    rfl
  · rw [if_neg h, decide_eq_false h]
    obtain ⟨c, cs, hcs, hc, -⟩ := decimal_eq_cons n.natAbs
    rw [hcs]
    unfold minusPart
    split
    · rename_i behind heq
      rw [(List.cons.inj heq).1] at hc
      cases hc
    · rfl

namespace Json

/-! ## Integers -/

/-- What stands behind a written value inside a text: the end, a comma, or the end of a container. -/
def EndsValue (rest : List Char) : Prop := ∀ c ∈ rest.head?, c = ',' ∨ c = ']' ∨ c = '\x7d'

theorem EndsValue.not_isDigit {rest : List Char} (h : EndsValue rest) : ∀ c ∈ rest.head?, c.isDigit = false := by
  intro c hc
  rcases h c hc with rfl | rfl | rfl <;> rfl

theorem EndsValue.fractionPart? {rest : List Char} (h : EndsValue rest) : fractionPart? Char.isDigit rest = none := by
  cases rest with
  | nil => rfl
  | cons c cs => rcases h c rfl with rfl | rfl | rfl <;> rfl

theorem EndsValue.exponentPart? {rest : List Char} (h : EndsValue rest) : exponentPart? Char.isDigit rest = none := by
  cases rest with
  | nil => rfl
  | cons c cs => rcases h c rfl with rfl | rfl | rfl <;> rfl

theorem readNumber_signedDecimal {n : Int} {rest : List Char} (hn : (decimal n.natAbs).length ≤ maxIntegerDigits)
    (hrest : EndsValue rest) : readNumber (signedDecimal n ++ rest) = .ok (.int n, rest) := by
  unfold readNumber
  rw [minusPart_signedDecimal]
  dsimp only
  rw [wholePart?_decimal hrest.not_isDigit]
  dsimp only
  rw [hrest.fractionPart?]
  dsimp only [Option.getD_none]
  rw [hrest.exponentPart?]
  dsimp only
  rw [if_neg (by decide), if_neg (Nat.not_lt.2 hn), toInt_signedDecimal]

theorem isPrefixOf?_cons {a b : Char} (as bs : List Char) :
    (a :: as).isPrefixOf? (b :: bs) = if a == b then as.isPrefixOf? bs else none := rfl

theorem words_of_isDigit {c : Char} (hc : c.isDigit = true) (cs : List Char) :
    (words.findSome? fun w => (w.1.isPrefixOf? (c :: cs)).map fun rest => (w.2, rest)) = none ∧
      (words.findSome? fun w => (w.1.isPrefixOf? ('-' :: c :: cs)).map fun rest => (w.2, rest)) = none := by
  have hne : ∀ d : Char, d.isDigit = false → (d == c) = false := by
    intro d hd
    rw [beq_eq_false_iff_ne]
    rintro rfl
    rw [hc] at hd
    cases hd
  constructor
  · simp [words, isPrefixOf?_cons, hne 'n' rfl, hne 't' rfl, hne 'f' rfl, hne 'N' rfl, hne 'I' rfl, hne '-' rfl]
  · simp [words, isPrefixOf?_cons, hne 'I' rfl]

theorem readScalar_signedDecimal {n : Int} {rest : List Char} (hn : (decimal n.natAbs).length ≤ maxIntegerDigits)
    (hrest : EndsValue rest) : readScalar (signedDecimal n ++ rest) = .ok (.int n, rest) := by
  have hword :
      (words.findSome? fun w => (w.1.isPrefixOf? (signedDecimal n ++ rest)).map fun rest => (w.2, rest)) = none := by
    obtain ⟨c, cs, hcs, hc, -⟩ := decimal_eq_cons n.natAbs
    rw [signedDecimal_eq, hcs]
    by_cases h : n < 0
    · rw [if_pos h]
      exact (words_of_isDigit hc (cs ++ rest)).2
    · rw [if_neg h]
      exact (words_of_isDigit hc (cs ++ rest)).1
  unfold readScalar
  rw [hword]
  exact readNumber_signedDecimal hn hrest

/-! ## Escapes -/

theorem hexDigit?_digitChar : ∀ d < 16, hexDigit? d.digitChar = some d := by decide

theorem zeroFilled_toDigits {b : Nat} (hb : 1 < b) (width n : Nat) : zeroFilled (width + 2) (Nat.toDigits b n) =
    zeroFilled (width + 1) (Nat.toDigits b (n / b)) ++ [(n % b).digitChar] := by
  unfold zeroFilled
  by_cases h : n < b
  · rw [Nat.toDigits_of_lt_base h, Nat.div_eq_of_lt h, Nat.mod_eq_of_lt h, Nat.toDigits_zero]
    simp [List.replicate_succ']
  · rw [Nat.toDigits_of_base_le hb (Nat.le_of_not_lt h)]
    simp

theorem hexadecimal_eq {n : Nat} (h : n < 0x10000) : hexadecimal 4 n =
    [(n / 16 / 16 / 16).digitChar, (n / 16 / 16 % 16).digitChar, (n / 16 % 16).digitChar, (n % 16).digitChar] := by
  unfold hexadecimal
  rw [zeroFilled_toDigits (by decide), zeroFilled_toDigits (by decide), zeroFilled_toDigits (by decide),
    Nat.toDigits_of_lt_base (by omega)]
  rfl

theorem hexQuad?_hexadecimal {n : Nat} (h : n < 0x10000) (rest : List Char) :
    hexQuad? (hexadecimal 4 n ++ rest) = some (n, rest) := by
  rw [hexadecimal_eq h]
  simp only [List.cons_append, List.nil_append, hexQuad?]
  rw [hexDigit?_digitChar _ (by omega), hexDigit?_digitChar _ (by omega), hexDigit?_digitChar _ (by omega),
    hexDigit?_digitChar _ (by omega)]
  simp only [Option.bind_eq_bind, Option.bind_some, Option.pure_def, Option.some.injEq, Prod.mk.injEq, and_true]
  omega

theorem isHighSurrogate_iff {n : Nat} : isHighSurrogate n = true ↔ 0xD800 ≤ n ∧ n < 0xDC00 := by
  unfold isHighSurrogate
  simp only [Bool.and_eq_true, decide_eq_true_eq]

theorem isLowSurrogate_iff {n : Nat} : isLowSurrogate n = true ↔ 0xDC00 ≤ n ∧ n < 0xE000 := by
  unfold isLowSurrogate
  simp only [Bool.and_eq_true, decide_eq_true_eq]

theorem readCodePoint_unit {n : Nat} {rest : List Char} (hn : n < 0x10000) (hhigh : isHighSurrogate n = false)
    (hrest : rest ≠ []) : readCodePoint (hexadecimal 4 n ++ rest) = .ok (charOf n, rest) := by
  unfold readCodePoint
  rw [hexQuad?_hexadecimal hn]
  cases rest with
  | nil => exact absurd rfl hrest
  | cons c cs => simp [hhigh]

theorem readCodePoint_pair {high low : Nat} {rest : List Char} (hhigh : isHighSurrogate high = true)
    (hlow : isLowSurrogate low = true) (hrest : rest ≠ []) :
    readCodePoint (hexadecimal 4 high ++ (unitEscape low ++ rest)) =
      .ok (Char.ofNat (0x10000 + (high - 0xD800) * 0x400 + (low - 0xDC00)), rest) := by
  have hh : high < 0x10000 := Nat.lt_trans (isHighSurrogate_iff.1 hhigh).2 (by decide)
  have hl : low < 0x10000 := Nat.lt_trans (isLowSurrogate_iff.1 hlow).2 (by decide)
  have hdrop : ((hexadecimal 4 low ++ rest).drop 4).isEmpty = false := by
    rw [hexadecimal_eq hl]
    simpa using hrest
  unfold readCodePoint
  rw [hexQuad?_hexadecimal hh]
  simp [unitEscape, hhigh, hdrop, hexQuad?_hexadecimal hl, hlow]

/-! ## Strings -/

variable {opening rest : List Char} {fuel : Nat} {c : Char}

def withChar (c : Char) (read : Except Stop (List Char × List Char)) : Except Stop (List Char × List Char) := do
  let (s, rest) ← read
  return (c :: s, rest)

theorem readString_escape {cs : List Char} (h : readEscape opening cs = .ok (c, rest)) :
    readString opening (fuel + 1) ('\\' :: cs) = withChar c (readString opening fuel rest) := by
  rw [readString, if_neg (by decide), if_pos rfl, h]
  rfl

theorem readString_verbatim (hquote : c ≠ '"') (hbackslash : c ≠ '\\') (hcontrol : ¬ c.toNat < 0x20) :
    readString opening (fuel + 1) (c :: rest) = withChar c (readString opening fuel rest) := by
  rw [readString, if_neg hquote, if_neg hbackslash, if_neg hcontrol]
  rfl

theorem readEscape_u (cs : List Char) : readEscape opening ('u' :: cs) = readCodePoint cs := rfl

theorem toNat_valid (c : Char) : c.toNat < 0xD800 ∨ 0xDFFF < c.toNat ∧ c.toNat < 0x110000 := c.valid

theorem readEscape_unit (hc : c.toNat < 0x10000) (hrest : rest ≠ []) :
    readEscape opening ('u' :: hexadecimal 4 c.toNat ++ rest) = .ok (c, rest) := by
  have hvalid := toNat_valid c
  -- no character is a surrogate
  have hhigh : isHighSurrogate c.toNat = false := by
    rw [Bool.eq_false_iff, ne_eq, isHighSurrogate_iff]
    omega
  have hlow : isLowSurrogate c.toNat = false := by
    rw [Bool.eq_false_iff, ne_eq, isLowSurrogate_iff]
    omega
  have hchar : charOf c.toNat = c := by
    unfold charOf
    rw [hhigh, hlow]
    exact Char.ofNat_toNat c
  rw [List.cons_append, readEscape_u, readCodePoint_unit hc hhigh hrest, hchar]

theorem readEscape_pair (hc : 0x10000 ≤ c.toNat) (hrest : rest ≠ []) :
    readEscape opening ('u' :: hexadecimal 4 (0xD800 + (c.toNat - 0x10000) / 0x400) ++
      (unitEscape (0xDC00 + (c.toNat - 0x10000) % 0x400) ++ rest)) = .ok (c, rest) := by
  have hvalid := toNat_valid c
  have hhigh : isHighSurrogate (0xD800 + (c.toNat - 0x10000) / 0x400) = true := by
    rw [isHighSurrogate_iff]
    omega
  have hlow : isLowSurrogate (0xDC00 + (c.toNat - 0x10000) % 0x400) = true := by
    rw [isLowSurrogate_iff]
    omega
  have hsum : 0x10000 + (0xD800 + (c.toNat - 0x10000) / 0x400 - 0xD800) * 0x400 +
      (0xDC00 + (c.toNat - 0x10000) % 0x400 - 0xDC00) = c.toNat := by omega
  rw [List.cons_append, readEscape_u, readCodePoint_pair hhigh hlow hrest, hsum, Char.ofNat_toNat]

theorem readString_escapedChar (hrest : rest ≠ []) :
    readString opening (fuel + 1) (escapedChar c ++ rest) = withChar c (readString opening fuel rest) := by
  unfold escapedChar
  dsimp only
  -- the marks, the five short escapes, what stands as itself, and one or two escapes of sixteen bits
  split
  · rename_i h
    rcases h with rfl | rfl <;> exact readString_escape rfl
  split
  · rename_i h
    subst h
    exact readString_escape rfl
  split
  · rename_i h
    subst h
    exact readString_escape rfl
  split
  · rename_i h
    subst h
    exact readString_escape rfl
  split
  · rename_i h
    subst h
    exact readString_escape rfl
  split
  · rename_i h
    subst h
    exact readString_escape rfl
  split
  · rename_i hmark _ _ _ _ _ hplain
    exact readString_verbatim (fun h => hmark (.inl h)) (fun h => hmark (.inr h)) (by omega)
  split
  · rename_i hc
    exact readString_escape (readEscape_unit hc hrest)
  · rename_i hc
    rw [List.append_assoc]
    exact readString_escape (readEscape_pair (Nat.le_of_not_lt hc) hrest)

theorem readString_escapedChars (opening rest : List Char) : ∀ (cs : List Char) (fuel : Nat), cs.length < fuel →
    readString opening fuel (cs.flatMap escapedChar ++ '"' :: rest) = .ok (cs, rest)
  | _, 0, h => absurd h (Nat.not_lt_zero _)
  | [], fuel + 1, _ => by
    rw [List.flatMap_nil, List.nil_append, readString, if_pos rfl]
  | c :: cs, fuel + 1, h => by
    have ih := readString_escapedChars opening rest cs fuel (Nat.lt_of_succ_lt_succ h)
    rw [List.flatMap_cons, List.append_assoc, readString_escapedChar (by simp), ih]
    rfl

theorem escapedChar_ne_nil (c : Char) : escapedChar c ≠ [] := by
  unfold escapedChar unitEscape
  dsimp only
  repeat' split
  all_goals exact List.cons_ne_nil _ _

theorem length_le_flatMap_escapedChar : ∀ cs : List Char, cs.length ≤ (cs.flatMap escapedChar).length
  | [] => Nat.le_refl 0
  | c :: cs => by
    have ih := length_le_flatMap_escapedChar cs
    have hc := List.length_pos_iff.2 (escapedChar_ne_nil c)
    rw [List.flatMap_cons, List.length_append, List.length_cons]
    omega

theorem stringChars_eq (s : String) : stringChars s = '"' :: (stringChars s).tail := rfl

theorem readString_stringChars {s : String} (hfuel : (stringChars s).length ≤ fuel) (opening rest : List Char) :
    readString opening fuel ((stringChars s).tail ++ rest) = .ok (s.toList, rest) := by
  have hlength := length_le_flatMap_escapedChar s.toList
  unfold stringChars at hfuel ⊢
  simp only [List.cons_append, List.length_cons, List.length_append, List.length_nil] at hfuel
  rw [List.cons_append, List.tail_cons, List.append_assoc]
  exact readString_escapedChars opening rest s.toList fuel (by omega)

end Json
end ListQuery
