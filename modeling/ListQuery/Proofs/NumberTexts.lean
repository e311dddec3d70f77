import ListQuery.Numeral
import ListQuery.Proofs.DecimalRounding
import ListQuery.Proofs.WrittenScalars
import ListQuery.Text.Split
import Mathlib.Data.Bool.AllAny
import Mathlib.Data.List.TakeWhile
/-!
# Texts that are numbers

The grammar of the numbers that a text may begin with, and a reader of whole texts that takes more: blanks at both ends,
single underscores between digits, and the words for an infinity and for no number in letters of either case.  Each number of
the grammar is one that this reader takes, once `Infinity` is cut short to `inf` (`IsNumber.exists_ofText?`).
-/
namespace ListQuery

namespace Numeral

/-! ## The grammar -/

def AreDigits (cs : List Char) : Prop := ∀ c ∈ cs, isDecimalDigit c = true

def IsDigitRow (cs : List Char) : Prop := AreDigits cs ∧ cs ≠ []

inductive IsMantissa : List Char → Prop
  | whole {digits} : IsDigitRow digits → IsMantissa digits
  | pointed {whole fraction} : AreDigits whole → AreDigits fraction → whole ≠ [] ∨ fraction ≠ [] →
      IsMantissa (whole ++ '.' :: fraction)

def signs : List (List Char) := [[], ['+'], ['-']]

inductive Signed (language : List Char → Prop) : List Char → Prop
  | mk {sign text} : sign ∈ signs → language text → Signed language (sign ++ text)

inductive IsExponent : List Char → Prop
  | mk {e text} : e = 'e' ∨ e = 'E' → Signed IsDigitRow text → IsExponent (e :: text)

inductive IsMagnitude : List Char → Prop
  | plain {mantissa} : IsMantissa mantissa → IsMagnitude mantissa
  | scaled {mantissa exponent} : IsMantissa mantissa → IsExponent exponent → IsMagnitude (mantissa ++ exponent)
  | infinity : IsMagnitude "Infinity".toList

def IsNumber : List Char → Prop := Signed IsMagnitude

/-! ## The reader of whole texts -/

def cutAt (mark : Char → Bool) (cs : List Char) : List Char × Option (List Char) :=
  match cs.dropWhile (!mark ·) with
  | [] => (cs, none)
  | _ :: behind => (cs.takeWhile (!mark ·), some behind)

/-- The digits of a text that is made of them, without the single underscores that may stand between two. -/
def digitGroups? (cs : List Char) : Option (List Char) :=
  let groups := splitChars '_' cs
  if groups.all fun group => !group.isEmpty && group.all isDecimalDigit then some groups.flatten else none

def optionalDigits? (cs : List Char) : Option (List Char) := if cs = [] then some [] else digitGroups? cs

def mantissaParts? (cs : List Char) : Option (List Char × List Char) :=
  match cutAt (· = '.') cs with
  | (whole, none) => (digitGroups? whole).map (·, [])
  | (whole, some fraction) =>
    if whole = [] ∧ fraction = [] then none else do return (← optionalDigits? whole, ← optionalDigits? fraction)

def isExponentMark (c : Char) : Bool := c = 'e' || c = 'E'

def signedDigits? (cs : List Char) : Option Int :=
  (digitGroups? (signPart cs).2).map fun digits => toInt ⟨(signPart cs).1, digits, [], 0⟩

def parts? (cs : List Char) : Option ((List Char × List Char) × Int) := do
  let (mantissa, exponent) := cutAt isExponentMark cs
  return (← mantissaParts? mantissa, ← exponent.elim (some 0) signedDigits?)

/-- The text with `inf` for each `Infinity`. -/
def shortened : List Char → List Char
  | 'I' :: 'n' :: 'f' :: 'i' :: 'n' :: 'i' :: 't' :: 'y' :: rest => 'i' :: 'n' :: 'f' :: shortened rest
  | c :: rest => c :: shortened rest
  | [] => []

end Numeral

def Binary64.ofText? (text : List Char) : Option Binary64 :=
  let (negative, body) := signPart (trimChars isWhiteSpace text)
  match Numeral.parts? body with
  | some ((whole, fraction), exponent) =>
    some (nearestDecimal negative (ofDigits (whole ++ fraction)) (exponent - fraction.length))
  | none =>
    let word := body.map Char.toLower
    if word = "inf".toList ∨ word = "infinity".toList then some (.infinite negative)
    else if word = "nan".toList then some .nan
    else none

namespace Numeral

/-! ## Characters -/

theorem isBlank_of_isDecimalDigit {c : Char} (h : isDecimalDigit c = true) : isBlank c = false := by
  have hruns : ∀ first ∈ decimalZeros, ∀ value < 10, isBlank (Char.ofNat (first + value)) = false := by decide +kernel
  obtain ⟨first, hfirst⟩ :
      ∃ first, decimalZeros.find? (fun first => first ≤ c.toNat && c.toNat < first + 10) = some first := by
    rw [isDecimalDigit, digitValue?, Option.isSome_map] at h
    exact Option.isSome_iff_exists.1 h
  have hrange := List.find?_some hfirst
  simp only [Bool.and_eq_true, decide_eq_true_eq] at hrange
  have hc := hruns first (List.mem_of_find?_eq_some hfirst) (c.toNat - first) (by omega)
  rwa [Nat.add_sub_cancel' hrange.1, Char.ofNat_toNat] at hc

theorem AreDigits.notMem {cs : List Char} (h : AreDigits cs) {c : Char} (hc : isDecimalDigit c = false) : c ∉ cs :=
  fun hmem => Bool.false_ne_true (hc.symm.trans (h c hmem))

theorem AreDigits.not_point {cs : List Char} (h : AreDigits cs) : ∀ c ∈ cs, decide (c = '.') = false := by
  intro c hc
  refine decide_eq_false fun hpoint => h.notMem (by decide : isDecimalDigit '.' = false) ?_
  rwa [← hpoint]

theorem IsMantissa.mem {mantissa : List Char} (h : IsMantissa mantissa) {c : Char} (hc : c ∈ mantissa) :
    isDecimalDigit c = true ∨ c = '.' := by
  cases h with
  | whole hdigits => exact .inl (hdigits.1 c hc)
  | pointed hwhole hfraction =>
    rcases List.mem_append.1 hc with hc | hc
    · exact .inl (hwhole c hc)
    rcases List.mem_cons.1 hc with hc | hc
    · exact .inr hc
    · exact .inl (hfraction c hc)

theorem IsMantissa.notMem {mantissa : List Char} (h : IsMantissa mantissa) {c : Char} (hdigit : isDecimalDigit c = false)
    (hpoint : c ≠ '.') : c ∉ mantissa := by
  intro hc
  rcases h.mem hc with hc | hc
  · exact Bool.false_ne_true (hdigit.symm.trans hc)
  · exact hpoint hc

def IsNumeralChar (c : Char) : Prop := isDecimalDigit c = true ∨ c ∈ ['.', 'e', 'E', '+', '-']

theorem IsNumeralChar.plain {c : Char} (h : IsNumeralChar c) : isBlank c = false ∧ c ≠ 'I' := by
  have hmarks : ∀ c ∈ ['.', 'e', 'E', '+', '-'], isBlank c = false ∧ c ≠ 'I' := List.all_iff_forall_prop.1 (by decide)
  have hletter : isDecimalDigit 'I' = false := by decide
  rcases h with h | h
  · refine ⟨isBlank_of_isDecimalDigit h, fun hc => ?_⟩
    rw [hc, hletter] at h
    exact Bool.false_ne_true h
  · exact hmarks c h

theorem isNumeralChar_of_mem_signs {sign : List Char} (h : sign ∈ signs) : ∀ c ∈ sign, IsNumeralChar c := by
  have hsigns : ∀ sign ∈ signs, sign ⊆ ['.', 'e', 'E', '+', '-'] := by decide
  exact fun c hc => .inr (hsigns sign h hc)

theorem IsMantissa.isNumeralChar {mantissa : List Char} (h : IsMantissa mantissa) : ∀ c ∈ mantissa, IsNumeralChar c := by
  intro c hc
  rcases h.mem hc with hc | rfl
  · exact .inl hc
  · exact .inr (by decide)

theorem IsExponent.isNumeralChar {exponent : List Char} (h : IsExponent exponent) : ∀ c ∈ exponent, IsNumeralChar c := by
  obtain ⟨he, ⟨hsign, hdigits, -⟩⟩ := h
  intro c hc
  rcases List.mem_cons.1 hc with rfl | hc
  · rcases he with rfl | rfl
    · exact .inr (by decide)
    · exact .inr (by decide)
  rcases List.mem_append.1 hc with hc | hc
  · exact isNumeralChar_of_mem_signs hsign c hc
  · exact .inl (hdigits c hc)

/-! ## What the reader takes -/

theorem cutAt_of_none {mark : Char → Bool} {cs : List Char} (h : ∀ c ∈ cs, mark c = false) : cutAt mark cs = (cs, none) := by
  have hdrop : cs.dropWhile (!mark ·) = [] := by
    rw [List.dropWhile_eq_nil_iff]
    intro c hc
    rw [h c hc]
    rfl
  rw [cutAt, hdrop]

theorem cutAt_append {mark : Char → Bool} {before : List Char} (h : ∀ c ∈ before, mark c = false) {c : Char}
    (hc : mark c = true) (behind : List Char) : cutAt mark (before ++ c :: behind) = (before, some behind) := by
  have hbefore : ∀ c ∈ before, (!mark c) = true := fun c hc => by rw [h c hc]; rfl
  have hdrop : (before ++ c :: behind).dropWhile (!mark ·) = c :: behind := by
    rw [List.dropWhile_append_of_pos hbefore, List.dropWhile_cons, hc]
    rfl
  have htake : (before ++ c :: behind).takeWhile (!mark ·) = before := by
    rw [List.takeWhile_append_of_pos hbefore, List.takeWhile_cons, hc]
    exact List.append_nil before
  rw [cutAt, hdrop, htake]

theorem digitGroups?_of_isDigitRow {digits : List Char} (h : IsDigitRow digits) : digitGroups? digits = some digits := by
  have hall : [digits].all (fun group => !group.isEmpty && group.all isDecimalDigit) = true := by
    rw [List.all_cons, List.all_nil, Bool.and_true, Bool.and_eq_true, List.all_eq_true]
    exact ⟨by simpa using h.2, h.1⟩
  rw [digitGroups?, splitChars_of_notMem (h.1.notMem (by decide)), if_pos hall, List.flatten_singleton]

theorem optionalDigits?_of_areDigits {digits : List Char} (h : AreDigits digits) : optionalDigits? digits = some digits := by
  unfold optionalDigits?
  split
  · rename_i hnil
    rw [hnil]
  · rename_i hne
    exact digitGroups?_of_isDigitRow ⟨h, hne⟩

theorem mantissaParts?_whole {digits : List Char} (h : IsDigitRow digits) : mantissaParts? digits = some (digits, []) := by
  have hcut : cutAt (· = '.') digits = (digits, none) := cutAt_of_none h.1.not_point
  simp only [mantissaParts?, hcut, digitGroups?_of_isDigitRow h, Option.map_some]

theorem mantissaParts?_pointed {whole fraction : List Char} (hwhole : AreDigits whole) (hfraction : AreDigits fraction)
    (hne : whole ≠ [] ∨ fraction ≠ []) : mantissaParts? (whole ++ '.' :: fraction) = some (whole, fraction) := by
  have hcut : cutAt (· = '.') (whole ++ '.' :: fraction) = (whole, some fraction) :=
    cutAt_append hwhole.not_point rfl fraction
  have hparts : ¬(whole = [] ∧ fraction = []) := not_and_or.2 hne
  simp only [mantissaParts?, hcut, if_neg hparts, optionalDigits?_of_areDigits hwhole,
    optionalDigits?_of_areDigits hfraction, Option.bind_eq_bind, Option.bind_some, Option.pure_def]

theorem IsMantissa.exists_parts {mantissa : List Char} (h : IsMantissa mantissa) :
    ∃ parts, mantissaParts? mantissa = some parts := by
  cases h with
  | whole hdigits => exact ⟨_, mantissaParts?_whole hdigits⟩
  | pointed hwhole hfraction hne => exact ⟨_, mantissaParts?_pointed hwhole hfraction hne⟩

theorem signPart_append {sign body : List Char} (hsign : sign ∈ signs) (hbody : ∀ c ∈ body.head?, c ≠ '+' ∧ c ≠ '-') :
    signPart (sign ++ body) = (decide (sign = ['-']), body) := by
  simp only [signs, List.mem_cons, List.not_mem_nil, or_false] at hsign
  rcases hsign with rfl | rfl | rfl
  · rw [List.nil_append, signPart]
    · rfl
    · rintro rest rfl
      exact (hbody '-' rfl).2 rfl
    · rintro rest rfl
      exact (hbody '+' rfl).1 rfl
  · rfl
  · rfl

theorem IsMantissa.ne_nil {mantissa : List Char} (h : IsMantissa mantissa) : mantissa ≠ [] := by
  cases h with
  | whole hdigits => exact hdigits.2
  | pointed => exact List.append_ne_nil_of_right_ne_nil _ (List.cons_ne_nil _ _)

theorem IsMantissa.head_not_sign {mantissa : List Char} (h : IsMantissa mantissa) (rest : List Char) :
    ∀ c ∈ (mantissa ++ rest).head?, c ≠ '+' ∧ c ≠ '-' := by
  intro c hc
  have hmem : c ∈ mantissa := by
    cases hm : mantissa with
    | nil => exact absurd hm h.ne_nil
    | cons d cs =>
      rw [hm] at hc
      exact Option.some.inj hc ▸ List.mem_cons_self
  refine ⟨?_, ?_⟩
  · rintro rfl
    exact h.notMem (by decide) (by decide) hmem
  · rintro rfl
    exact h.notMem (by decide) (by decide) hmem

theorem IsDigitRow.head_not_sign {digits : List Char} (h : IsDigitRow digits) : ∀ c ∈ digits.head?, c ≠ '+' ∧ c ≠ '-' := by
  have hhead := (IsMantissa.whole h).head_not_sign []
  rwa [List.append_nil] at hhead

theorem signedDigits?_append {sign digits : List Char} (hsign : sign ∈ signs) (h : IsDigitRow digits) :
    signedDigits? (sign ++ digits) = some (toInt ⟨decide (sign = ['-']), digits, [], 0⟩) := by
  rw [signedDigits?, signPart_append hsign h.head_not_sign, digitGroups?_of_isDigitRow h, Option.map_some]

theorem IsExponent.exists_signedDigits {exponent : List Char} (h : IsExponent exponent) :
    ∃ n, signedDigits? exponent.tail = some n := by
  obtain ⟨-, ⟨hsign, hdigits⟩⟩ := h
  exact ⟨_, signedDigits?_append hsign hdigits⟩

theorem IsMantissa.not_mark {mantissa : List Char} (h : IsMantissa mantissa) : ∀ c ∈ mantissa, isExponentMark c = false := by
  intro c hc
  have hne : ∀ {mark : Char}, isDecimalDigit mark = false → mark ≠ '.' → decide (c = mark) = false := by
    rintro mark hdigit hpoint
    refine decide_eq_false fun heq => h.notMem hdigit hpoint ?_
    rwa [← heq]
  rw [isExponentMark, hne (by decide) (by decide), hne (by decide) (by decide)]
  rfl

theorem parts?_plain {mantissa : List Char} (h : IsMantissa mantissa) {parts : List Char × List Char}
    (hparts : mantissaParts? mantissa = some parts) : parts? mantissa = some (parts, 0) := by
  have hcut : cutAt isExponentMark mantissa = (mantissa, none) := cutAt_of_none h.not_mark
  simp only [parts?, hcut, hparts, Option.elim_none, Option.bind_eq_bind, Option.bind_some, Option.pure_def]

theorem parts?_scaled {mantissa : List Char} (h : IsMantissa mantissa) {parts : List Char × List Char}
    (hparts : mantissaParts? mantissa = some parts) {e : Char} (he : e = 'e' ∨ e = 'E') {text : List Char} {n : Int}
    (htext : signedDigits? text = some n) : parts? (mantissa ++ e :: text) = some (parts, n) := by
  have hmark : isExponentMark e = true := by
    rcases he with rfl | rfl
    · rfl
    · rfl
  have hcut : cutAt isExponentMark (mantissa ++ e :: text) = (mantissa, some text) := cutAt_append h.not_mark hmark text
  simp only [parts?, hcut, hparts, htext, Option.elim_some, Option.bind_eq_bind, Option.bind_some, Option.pure_def]

theorem shortened_of_notMem : ∀ {cs : List Char}, 'I' ∉ cs → shortened cs = cs
  | [], _ => rfl
  | c :: cs, h => by
    rw [List.mem_cons, not_or] at h
    rw [shortened, shortened_of_notMem h.2]
    rintro rest rfl
    exact absurd rfl h.1

theorem trimChars_of_plain {cs : List Char} (h : ∀ c ∈ cs, IsNumeralChar c) : trimChars isWhiteSpace cs = cs := by
  have hplain : ∀ c ∈ cs, isWhiteSpace c = false := fun c hc =>
    Bool.eq_false_iff.2 fun hspace => Bool.eq_false_iff.1 (h c hc).plain.1 (isBlank_of_isWhiteSpace hspace)
  exact trimChars_eq_self_iff.2 ⟨fun c hc => hplain c (List.mem_of_mem_head? hc),
    fun c hc => hplain c (List.mem_of_mem_getLast? hc)⟩

theorem ofText?_shortened {sign text : List Char} (hsign : sign ∈ signs) (htext : ∀ c ∈ text, IsNumeralChar c)
    (hhead : ∀ c ∈ text.head?, c ≠ '+' ∧ c ≠ '-') {whole fraction : List Char} {exponent : Int}
    (hparts : parts? text = some ((whole, fraction), exponent)) :
    Binary64.ofText? (shortened (sign ++ text)) =
      some (toBinary64 ⟨decide (sign = ['-']), whole, fraction, exponent⟩) := by
  have hchars : ∀ c ∈ sign ++ text, IsNumeralChar c := by
    intro c hc
    rcases List.mem_append.1 hc with hc | hc
    · exact isNumeralChar_of_mem_signs hsign c hc
    · exact htext c hc
  have hplain : 'I' ∉ sign ++ text := fun hmem => (hchars 'I' hmem).plain.2 rfl
  rw [shortened_of_notMem hplain, Binary64.ofText?, trimChars_of_plain hchars, signPart_append hsign hhead]
  dsimp only
  rw [hparts]
  exact congrArg some (Binary64.ofDecimal_eq _ _ _).symm

theorem ofText?_plain {sign mantissa whole fraction : List Char} (hsign : sign ∈ signs) (h : IsMantissa mantissa)
    (hparts : mantissaParts? mantissa = some (whole, fraction)) : Binary64.ofText? (shortened (sign ++ mantissa)) =
      some (toBinary64 ⟨decide (sign = ['-']), whole, fraction, 0⟩) := by
  have hhead := h.head_not_sign []
  rw [List.append_nil] at hhead
  exact ofText?_shortened hsign h.isNumeralChar hhead (parts?_plain h hparts)

theorem ofText?_scaled {sign mantissa exponent whole fraction : List Char} {n : Int} (hsign : sign ∈ signs)
    (h : IsMantissa mantissa) (hparts : mantissaParts? mantissa = some (whole, fraction)) (hexponent : IsExponent exponent)
    (hn : signedDigits? exponent.tail = some n) : Binary64.ofText? (shortened (sign ++ (mantissa ++ exponent))) =
      some (toBinary64 ⟨decide (sign = ['-']), whole, fraction, n⟩) := by
  have hchars : ∀ c ∈ mantissa ++ exponent, IsNumeralChar c := by
    intro c hc
    rcases List.mem_append.1 hc with hc | hc
    · exact h.isNumeralChar c hc
    · exact hexponent.isNumeralChar c hc
  refine ofText?_shortened hsign hchars (h.head_not_sign exponent) ?_
  cases hexponent with
  | mk he => exact parts?_scaled h hparts he hn

theorem ofText?_infinity {sign : List Char} (hsign : sign ∈ signs) :
    Binary64.ofText? (shortened (sign ++ "Infinity".toList)) = some (.infinite (decide (sign = ['-']))) := by
  have hall : ∀ sign ∈ signs,
      Binary64.ofText? (shortened (sign ++ "Infinity".toList)) = some (.infinite (decide (sign = ['-']))) := by
        decide +kernel
  exact hall sign hsign

theorem IsNumber.exists_ofText? {text : List Char} (h : IsNumber text) :
    ∃ x, Binary64.ofText? (shortened text) = some x := by
  cases h with
  | @mk sign text hsign htext =>
    cases htext with
    | plain hmantissa =>
      obtain ⟨⟨whole, fraction⟩, hparts⟩ := hmantissa.exists_parts
      exact ⟨_, ofText?_plain hsign hmantissa hparts⟩
    | scaled hmantissa hexponent =>
      obtain ⟨⟨whole, fraction⟩, hparts⟩ := hmantissa.exists_parts
      obtain ⟨n, hn⟩ := hexponent.exists_signedDigits
      exact ⟨_, ofText?_scaled hsign hmantissa hparts hexponent hn⟩
    | infinity => exact ⟨_, ofText?_infinity hsign⟩

/-- The reader takes more than the grammar has: white space at the ends, and underscores. -/
example : Binary64.ofText? " +1_0.e-1\n".toList = Binary64.ofText? "٠١".toList := by decide +kernel

end Numeral

end ListQuery
