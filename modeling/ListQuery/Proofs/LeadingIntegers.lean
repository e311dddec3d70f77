import ListQuery.Proofs.NumberPrefixes
import Mathlib.Data.List.Basic
import Mathlib.Data.List.Induction
import Mathlib.Data.Nat.Digits.Defs
/-!
# The integer that a text begins with

An integer is read up to the first character that is no digit, whatever stands behind it.  With few enough digits it is the
number that they denote by their places, in any script; with more of them it is read as a decimal number, which is rounded.
Main statement: `Field.valueOf_integer`.
-/
namespace ListQuery

namespace Numeral

/-- The number of a row of digits by their places: the last one counts ones, the one before it tens. -/
def Denotes (digits : List Char) (n : Nat) : Prop :=
  ∃ values : List Nat, digits.map digitValue? = values.map some ∧ n = Nat.ofDigits 10 values.reverse

theorem isDecimalDigit_of_isDigit {c : Char} (h : c.isDigit = true) : isDecimalDigit c = true := by
  have hrange := isDigit_iff.1 h
  have hzero : (decide (0x30 ≤ c.toNat) && decide (c.toNat < 0x30 + 10)) = true := by
    simp only [Bool.and_eq_true, decide_eq_true_eq]
    omega
  rw [isDecimalDigit, digitValue?, decimalZeros, List.find?_cons, hzero]
  rfl

theorem AreDigits.denotes {digits : List Char} (h : AreDigits digits) : Denotes digits (ofDigits digits) := by
  induction digits using List.reverseRecOn with
  | nil => exact ⟨[], rfl, rfl⟩
  | append_singleton digits c ih =>
    obtain ⟨values, hvalues, hn⟩ := ih fun d hd => h d (List.mem_append_left _ hd)
    obtain ⟨value, hvalue⟩ := Option.isSome_iff_exists.1 (h c (by simp))
    refine ⟨values ++ [value], by simp [hvalues, hvalue], ?_⟩
    rw [ofDigits_concat, hn, hvalue, List.reverse_concat, Nat.ofDigits_cons, Option.getD_some, Nat.add_comm]

/-- A text begins with a sign or none and with a run of digits that does not go on behind it. -/
structure BeginsWith (cs sign digits rest : List Char) : Prop where
  eq : cs = sign ++ (digits ++ rest)
  sign_mem : sign ∈ signs
  row : IsDigitRow digits
  ends : ∀ c ∈ rest.head?, isDecimalDigit c = false

variable {cs sign digits rest : List Char}

theorem BeginsWith.of_digitRun (hsign : sign ∈ signs) (hne : cs.takeWhile isDecimalDigit ≠ []) :
    BeginsWith (sign ++ cs) sign (cs.takeWhile isDecimalDigit) (cs.dropWhile isDecimalDigit) := by
  refine ⟨?_, hsign, ⟨fun c hc => List.mem_takeWhile_imp hc, hne⟩, fun c hc => ?_⟩
  · rw [List.takeWhile_append_dropWhile]
  · have hstop := List.head?_dropWhile_not isDecimalDigit cs
    rw [Option.mem_def.1 hc] at hstop
    simpa using hstop

theorem exists_beginsWith_iff :
    (∃ sign digits rest, BeginsWith cs sign digits rest) ↔ ∃ text, Signed IsDigitRow text ∧ text <+: cs := by
  constructor
  · rintro ⟨sign, digits, rest, h⟩
    refine ⟨sign ++ digits, .mk h.sign_mem h.row, ?_⟩
    rw [h.eq, ← List.append_assoc]
    exact List.prefix_append ..
  · rintro ⟨_, ⟨hsign, hdigits⟩, more, rfl⟩
    rw [List.append_assoc]
    refine ⟨_, _, _, .of_digitRun hsign ?_⟩
    rw [List.takeWhile_append_of_pos hdigits.1]
    exact List.append_ne_nil_of_left_ne_nil hdigits.2 _

/-! ## The reader -/

theorem BeginsWith.leadingInteger? (h : BeginsWith (cs.dropWhile isBlank) sign digits rest) :
    leadingInteger? cs = some ⟨decide (sign = ['-']), digits, [], 0⟩ := by
  have hsign := signPart_append h.sign_mem ((IsMantissa.whole h.row).head_not_sign rest)
  have hrun : (digits ++ rest).takeWhile isDecimalDigit = digits :=
    congrArg Prod.fst (digitRun_append h.row.1 h.ends)
  rw [ListQuery.leadingInteger?, h.eq, hsign]
  dsimp only
  rw [hrun]
  cases hd : digits with
  | nil => exact absurd hd h.row.2
  | cons => rfl

theorem leadingInteger?_of_not_begins (h : ¬∃ sign digits rest, BeginsWith (cs.dropWhile isBlank) sign digits rest) :
    leadingInteger? cs = none := by
  obtain ⟨sign, hsign, heq, -⟩ := exists_signPart (cs.dropWhile isBlank)
  by_cases hrun : (signPart (cs.dropWhile isBlank)).2.takeWhile isDecimalDigit = []
  · simp [leadingInteger?, hrun]
  · have hbegins := BeginsWith.of_digitRun hsign hrun
    rw [← heq] at hbegins
    exact absurd ⟨_, _, _, hbegins⟩ h

theorem ofText?_digits (hsign : sign ∈ signs) (h : IsDigitRow digits) :
    Binary64.ofText? (sign ++ digits) = some (toBinary64 ⟨decide (sign = ['-']), digits, [], 0⟩) := by
  have hplain : 'I' ∉ sign ++ digits := by
    intro hmem
    rcases List.mem_append.1 hmem with hmem | hmem
    · exact (isNumeralChar_of_mem_signs hsign _ hmem).plain.2 rfl
    · exact h.1.notMem (by decide) hmem
  have htext := ofText?_plain hsign (.whole h) (mantissaParts?_whole h)
  rwa [shortened_of_notMem hplain] at htext

end Numeral

open Numeral

namespace Raw

variable {raw : String} {sign digits rest : List Char}

theorem integer_of_few (h : BeginsWith (raw.toList.dropWhile isBlank) sign digits rest)
    (hfew : digits.length ≤ Json.maxIntegerDigits) :
    integer raw = .int (toInt ⟨decide (sign = ['-']), digits, [], 0⟩) := by
  simp [integer, h.leadingInteger?, hfew]

theorem integer_of_many (h : BeginsWith (raw.toList.dropWhile isBlank) sign digits rest)
    (hmany : Json.maxIntegerDigits < digits.length) :
    integer raw = .float (toBinary64 ⟨decide (sign = ['-']), digits, [], 0⟩) := by
  simp [integer, h.leadingInteger?, Nat.not_le.2 hmany]

theorem integer_eq_nan_iff : integer raw = .float .nan ↔
    ¬∃ text, Signed IsDigitRow text ∧ text <+: raw.toList.dropWhile isBlank := by
  rw [← exists_beginsWith_iff]
  by_cases h : ∃ sign digits rest, BeginsWith (raw.toList.dropWhile isBlank) sign digits rest
  · refine iff_of_false (fun hnan => ?_) (not_not.2 h)
    obtain ⟨sign, digits, rest, h⟩ := h
    by_cases hfew : digits.length ≤ Json.maxIntegerDigits
    · rw [integer_of_few h hfew] at hnan
      cases hnan
    · rw [integer_of_many h (Nat.not_le.1 hfew)] at hnan
      exact Binary64.ofDecimal_ne_nan _ _ _ (Value.float.inj hnan)
  · exact iff_of_true (by rw [integer, leadingInteger?_of_not_begins h]) h

end Raw

namespace Numeral

theorem isDigitRow_decimal (n : Nat) : IsDigitRow (decimal n) := by
  refine ⟨fun c hc => isDecimalDigit_of_isDigit (isDigit_of_mem_decimal hc), ?_⟩
  obtain ⟨c, cs, hcs, -⟩ := decimal_eq_cons n
  simp [hcs]

theorem beginsWith_signedDecimal (n : Int) (hrest : ∀ c ∈ rest.head?, isDecimalDigit c = false) :
    BeginsWith (signedDecimal n ++ rest) (if n < 0 then ['-'] else []) (decimal n.natAbs) rest := by
  refine ⟨?_, ?_, isDigitRow_decimal _, hrest⟩
  · rw [signedDecimal_eq]
    by_cases h : n < 0 <;> simp [h]
  · by_cases h : n < 0 <;> simp [h, signs]

theorem BeginsWith.dropWhile_isBlank (h : BeginsWith cs sign digits rest) : cs.dropWhile isBlank = cs := by
  have hplain : ∀ c ∈ sign ++ digits, isBlank c = false := by
    intro c hc
    rcases List.mem_append.1 hc with hc | hc
    · exact (isNumeralChar_of_mem_signs h.sign_mem c hc).plain.1
    · exact isBlank_of_isDecimalDigit (h.row.1 c hc)
  rw [h.eq, ← List.append_assoc]
  cases htext : sign ++ digits with
  | nil => exact absurd (List.append_eq_nil_iff.1 htext).2 h.row.2
  | cons c text => simp [hplain c (htext ▸ List.mem_cons_self)]

end Numeral

/-- **An integer is read off the front of a text.**  Behind blanks, the text is `nan` exactly if it begins with no digits, a
sign before them or not.  Otherwise the whole run of digits is read: as the integer that they denote if there are at most
4300 of them, and as the decimal number of the same text if there are more.  So each integer with that many digits is read
off its own numeral, whatever blanks stand before it and whatever but a digit stands behind it. -/
theorem Field.valueOf_integer {f : Field} (hf : f.kind = .scalar (.str "Int") ∨ f.kind = .scalar (.str "BigInt")) :
    (∀ raw, f.valueOf raw = .ok (Raw.integer raw)) ∧
    (∀ raw, Raw.integer raw = .float .nan ↔ ¬∃ text, Signed IsDigitRow text ∧ text <+: raw.toList.dropWhile isBlank) ∧
    (∀ raw sign digits rest, BeginsWith (raw.toList.dropWhile isBlank) sign digits rest →
      (digits.length ≤ 4300 →
        ∃ n : Nat, Denotes digits n ∧ Raw.integer raw = .int (if sign = ['-'] then -n else n)) ∧
      (4300 < digits.length → ∃ x, Binary64.ofText? (sign ++ digits) = some x ∧ Raw.integer raw = .float x)) ∧
    ∀ (n : Int) (blanks suffix : String), (decimal n.natAbs).length ≤ 4300 → (∀ c ∈ blanks.toList, isBlank c = true) →
      (∀ c ∈ suffix.toList.head?, isDecimalDigit c = false) →
        f.valueOf (blanks ++ Value.intText n ++ suffix) = .ok (.int n) := by
  have hvalue : ∀ raw, f.valueOf raw = .ok (Raw.integer raw) := by
    intro raw
    rcases hf with hf | hf <;> simp [valueOf, hf, Primitive.named, Primitive.valueOf]
  refine ⟨hvalue, fun raw => Raw.integer_eq_nan_iff, ?_, ?_⟩
  · intro raw sign digits rest h
    refine ⟨fun hfew => ⟨_, h.row.1.denotes, ?_⟩, fun hmany => ⟨_, ofText?_digits h.sign_mem h.row, ?_⟩⟩
    · rw [Raw.integer_of_few h hfew]
      simp [toInt]
    · exact Raw.integer_of_many h hmany
  · intro n blanks suffix hn hblanks hsuffix
    have hbegins := beginsWith_signedDecimal n hsuffix
    have hraw : (blanks ++ Value.intText n ++ suffix).toList.dropWhile isBlank = signedDecimal n ++ suffix.toList := by
      rw [String.toList_append, String.toList_append, Value.intText, String.toList_ofList, List.append_assoc,
        List.dropWhile_append_of_pos hblanks, hbegins.dropWhile_isBlank]
    rw [← hraw] at hbegins
    have hsign : decide ((if n < 0 then ['-'] else []) = ['-']) = decide (n < 0) := by
      by_cases h : n < 0 <;> simp [h]
    rw [hvalue, Raw.integer_of_few hbegins hn, hsign, toInt_signedDecimal]

/-- Digits of three scripts in one number, which ends where an underscore stands; no second sign; and the numeral of an
integer among other characters. -/
theorem Field.valueOf_integer_scripts :
    let f : Field := ⟨.str "girth", .scalar (.str "BigInt"), false⟩
    f.valueOf "\u3000+0٤२9_1" = .ok (.int 429) ∧ f.valueOf "-+4" = .ok (.float .nan) ∧
      f.valueOf "\u001c -120.5e3" = .ok (.int (-120)) := by
  intro f
  obtain ⟨hvalue, hnan, hrun, hnumeral⟩ := valueOf_integer (f := f) (.inr rfl)
  refine ⟨?_, ?_, ?_⟩
  · have hdigits : AreDigits "0٤२9".toList := List.all_iff_forall_prop.1 (by decide +kernel)
    have hend : isDecimalDigit '_' = false := by decide
    have hbegins : BeginsWith ("\u3000+0٤२9_1".toList.dropWhile isBlank) ['+'] "0٤२9".toList "_1".toList :=
      ⟨by decide +kernel, by decide, ⟨hdigits, by decide⟩, by simpa using hend⟩
    obtain ⟨n, ⟨values, hvalues, rfl⟩, hint⟩ := (hrun _ _ _ _ hbegins).1 (by decide)
    have hplaces : "0٤२9".toList.map digitValue? = [0, 4, 2, 9].map some := by decide +kernel
    obtain rfl : [0, 4, 2, 9] = values := List.map_injective_iff.2 (Option.some_injective _) (hplaces.symm.trans hvalues)
    rw [hvalue, hint]
    rfl
  · rw [hvalue, (hnan _).2]
    rintro ⟨text, htext, hbegins⟩
    obtain ⟨_, digits, -, -, hdigits, hpre⟩ := htext.of_begins isDigitRow_unsigned hbegins
    cases digits with
    | nil => exact hdigits.2 rfl
    | cons c digits =>
      -- behind the minus stands no digit but the other sign
      have hplus : c = '+' := (List.cons_prefix_cons.1 hpre).1
      have hdigit := hdigits.1 c List.mem_cons_self
      rw [hplus] at hdigit
      exact absurd hdigit (by decide)
  · have hend : isDecimalDigit '.' = false := by decide
    exact hnumeral (-120) "\u001c " ".5e3" (by decide) (List.all_iff_forall_prop.1 (by decide)) (by simpa using hend)

end ListQuery
