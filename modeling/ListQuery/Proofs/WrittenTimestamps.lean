import ListQuery.Proofs.TimestampOutcome
import ListQuery.Proofs.WrittenDates
import Mathlib.Data.Bool.AllAny
import Mathlib.Data.List.TakeWhile
/-!
# Timestamps are read as they are written

The written form of a timestamp that has no offset, or that of universal time, is read as that timestamp: unit by unit behind
the date (`readClock?_clockText`), and with the offset taken off the end (`readTime?_plus`).  A `Z` stands for the offset of
universal time.  Main statement: `Field.valueOf_isoText`.
-/
namespace ListQuery

namespace Timestamp

/-! ## The fields of the clock -/

theorem clock_lt (t : Timestamp) : t.hour < 24 ∧ t.minute < 60 ∧ t.second < 60 ∧ t.microsecond < microsPerSecond := by
  have hmicros := t.micros.isLt
  refine ⟨Nat.div_lt_of_lt_mul ?_, Nat.mod_lt _ (by decide), Nat.mod_lt _ (by decide), Nat.mod_lt _ (by decide)⟩
  rwa [Nat.mul_comm]

theorem timeOfDay?_clock (t : Timestamp) : timeOfDay? t.hour t.minute t.second t.microsecond = some t.micros := by
  rw [timeOfDay?, dif_pos t.clock_lt, Option.some.injEq, Fin.ext_iff]
  simp only [hour, minute, second, microsecond, microsPerHour, microsPerMinute, microsPerSecond]
  omega

end Timestamp

/-! ## Units -/

theorem readUnits?_colon {n : Nat} (hn : n < 100) (count : Nat) (units : List Nat) {rest : List Char} (hrest : rest ≠ []) :
    readUnits? true (count + 1) units (twoDigits n ++ ':' :: rest) = readUnits? true count (units ++ [n]) rest := by
  simp [readUnits?, digits?_twoDigits hn, afterUnit?, hrest]

theorem readFraction?_zeroFilled {micros : Nat} (h : micros < microsPerSecond) (units : List Nat) :
    readFraction? units (zeroFilled 6 (decimal micros)) = some ⟨units, micros, false⟩ := by
  have hlast : zeroFilled 6 (decimal micros) = lastDigits 6 micros := @zeroFilled_decimal 5 micros h
  have hread : digits? 6 (lastDigits 6 micros) = some (micros, []) := digits?_eq_some_iff.2 ⟨h, (List.append_nil _).symm⟩
  have hlength : min 6 (lastDigits 6 micros).length = 6 := rfl
  rw [hlast, readFraction?]
  simp [hlength, hread]

theorem readUnits?_fraction {n micros : Nat} (hn : n < 100) (h : micros < microsPerSecond) (count : Nat) (units : List Nat) :
    readUnits? true (count + 1) units (twoDigits n ++ fractionText micros) = some ⟨units ++ [n], micros, false⟩ := by
  rw [readUnits?, fractionText]
  by_cases hmicros : micros = 0
  · have hread := digits?_twoDigits hn []
    simp only [List.append_nil] at hread
    simp [hmicros, hread, afterUnit?]
  · have hne : zeroFilled 6 (decimal micros) ≠ [] := by
      rw [@zeroFilled_decimal 5 micros h]
      exact List.cons_ne_nil _ _
    rw [if_neg hmicros]
    simp [digits?_twoDigits hn, afterUnit?, hne, readFraction?_zeroFilled h]

theorem readClock?_clockText (t : Timestamp) :
    readClock? t.clockText = some ⟨[t.hour, t.minute, t.second], t.microsecond, false⟩ := by
  obtain ⟨hhour, hminute, hsecond, hmicro⟩ := t.clock_lt
  have hcolon : (t.clockText.drop 2).head? = some ':' := by
    rw [Timestamp.clockText, twoDigits_eq (by omega)]
    rfl
  have htext : t.clockText =
      twoDigits t.hour ++ ':' :: (twoDigits t.minute ++ ':' :: (twoDigits t.second ++ fractionText t.microsecond)) := by
    simp [Timestamp.clockText]
  have hne : ∀ {n : Nat}, n < 100 → ∀ rest, twoDigits n ++ rest ≠ [] := by
    intro n hn rest hnil
    rw [twoDigits_eq hn] at hnil
    cases hnil
  rw [readClock?, hcolon, htext, beq_self_eq_true, readUnits?_colon (by omega) _ _ (hne (by omega) _),
    readUnits?_colon (by omega) _ _ (hne (by omega) _), readUnits?_fraction (by omega) hmicro]
  rfl

/-! ## Time and offset -/

def isSign (c : Char) : Bool := c == '+' || c == '-'

theorem isDigit_not_isSign {c : Char} (h : c.isDigit = true) : isSign c = false := by
  rw [isSign, Bool.or_eq_false_iff, beq_eq_false_iff_ne, beq_eq_false_iff_ne]
  constructor
  · rintro rfl
    cases h
  · rintro rfl
    cases h

theorem readTime?_eq (cs : List Char) : readTime? cs =
    (readClock? (cs.takeWhile (!isSign ·))).bind fun r =>
      (Timestamp.timeOfDay? (r.units.getD 0 0) (r.units.getD 1 0) (r.units.getD 2 0) r.micros).bind fun time =>
        match cs.dropWhile (!isSign ·) with
        | [] => if r.leftover then none else some (time, none)
        | sign :: rest => (readOffset? (sign == '-') rest).bind fun o => some (time, some o) := rfl

theorem readTime?_eq_naive_iff {cs : List Char} {micros : Fin microsPerDay} : readTime? cs = some (micros, none) ↔
    (∀ c ∈ cs, isSign c = false) ∧ ∃ r, readClock? cs = some r ∧
      Timestamp.timeOfDay? (r.units.getD 0 0) (r.units.getD 1 0) (r.units.getD 2 0) r.micros = some micros ∧
      r.leftover = false := by
  have htake : cs.takeWhile (!isSign ·) = cs ↔ ∀ c ∈ cs, isSign c = false := by simp [List.takeWhile_eq_self_iff]
  have hdrop : cs.dropWhile (!isSign ·) = [] ↔ ∀ c ∈ cs, isSign c = false := by simp
  rw [readTime?_eq]
  constructor
  · intro h
    obtain ⟨r, hr, h⟩ := Option.bind_eq_some_iff.1 h
    obtain ⟨time, htime, h⟩ := Option.bind_eq_some_iff.1 h
    split at h
    · rename_i hnil
      have hall := hdrop.1 hnil
      rw [htake.2 hall] at hr
      split at h
      · cases h
      · rename_i hleft
        obtain ⟨rfl, -⟩ := Prod.mk.inj (Option.some.inj h)
        exact ⟨hall, r, hr, htime, by simpa using hleft⟩
    · obtain ⟨o, -, h⟩ := Option.bind_eq_some_iff.1 h
      cases h
  · rintro ⟨hall, r, hr, htime, hleft⟩
    rw [htake.2 hall, hr, Option.bind_some, htime, Option.bind_some, hdrop.2 hall, hleft]
    rfl

theorem readTime?_plus {cs : List Char} (h : ∀ c ∈ cs, isSign c = false) (rest : List Char) : readTime? (cs ++ '+' :: rest) =
    (readClock? cs).bind fun r =>
      (Timestamp.timeOfDay? (r.units.getD 0 0) (r.units.getD 1 0) (r.units.getD 2 0) r.micros).bind fun time =>
        (readOffset? false rest).bind fun o => some (time, some o) := by
  have hrun : ∀ c ∈ cs, (!isSign c) = true := fun c hc => by simp [h c hc]
  rw [readTime?_eq, List.takeWhile_append_of_pos hrun, List.takeWhile_cons_of_neg (by decide), List.append_nil,
    List.dropWhile_append_of_pos hrun, List.dropWhile_cons_of_neg (by decide)]
  rfl

theorem readTime?_designated {cs : List Char} {micros : Fin microsPerDay} (h : readTime? cs = some (micros, none)) :
    readTime? (cs ++ "+00:00".toList) = some (micros, some .utc) := by
  obtain ⟨hall, r, hr, htime, -⟩ := readTime?_eq_naive_iff.1 h
  have hzero : readOffset? false "00:00".toList = some .utc := by decide +kernel
  show readTime? (cs ++ '+' :: "00:00".toList) = _
  rw [readTime?_plus hall, hr, Option.bind_some, htime, Option.bind_some, hzero]
  rfl

/-! ## The whole text -/

theorem mem_clockText {t : Timestamp} {c : Char} (hc : c ∈ t.clockText) : c.isDigit = true ∨ c = ':' ∨ c = '.' := by
  have hfraction : c ∈ fractionText t.microsecond → c.isDigit = true ∨ c = '.' := by
    intro hc
    rw [fractionText] at hc
    split at hc
    · cases hc
    · rcases List.mem_cons.1 hc with hc | hc
      · exact .inr hc
      · exact .inl (isDigit_of_mem_zeroFilled hc)
  simp only [Timestamp.clockText, List.mem_append, List.mem_cons] at hc
  rcases hc with ((hc | hc | hc) | hc | hc) | hc
  · exact .inl (isDigit_of_mem_zeroFilled hc)
  · exact .inr (.inl hc)
  · exact .inl (isDigit_of_mem_zeroFilled hc)
  · exact .inr (.inl hc)
  · exact .inl (isDigit_of_mem_zeroFilled hc)
  · exact (hfraction hc).imp_right .inr

theorem readTime?_clockText (t : Timestamp) : readTime? t.clockText = some (t.micros, none) := by
  refine readTime?_eq_naive_iff.2 ⟨fun c hc => ?_, _, readClock?_clockText t, t.timeOfDay?_clock, rfl⟩
  rcases mem_clockText hc with hdigit | rfl | rfl
  · exact isDigit_not_isSign hdigit
  · rfl
  · rfl

namespace Timestamp

theorem read?_of_time {cs time : List Char} {c : Char} {d : Date} {micros : Fin microsPerDay} {o : Option Offset}
    (hdate : readDate? cs = some (d, c :: time)) (htime : readTime? time = some (micros, o)) :
    read? cs = some ⟨d, micros, o⟩ := by
  simp only [read?, hdate, htime, Option.bind_eq_bind, Option.bind_some, Option.pure_def]

def clockForm (t : Timestamp) : List Char := t.date.text ++ 'T' :: t.clockText

theorem toList_isoText_naive {t : Timestamp} (h : t.offset = none) : t.isoText.toList = t.clockForm := by
  rw [isoText, textWith, String.toList_ofList, h, List.append_nil]
  rfl

theorem toList_isoText_utc {t : Timestamp} (h : t.offset = some .utc) :
    t.isoText.toList = t.clockForm ++ "+00:00".toList := by
  have hutc : Offset.utc.text = "+00:00".toList := by decide +kernel
  rw [isoText, textWith, String.toList_ofList, h, ← hutc]
  rfl

theorem read?_clockForm (t : Timestamp) : read? t.clockForm = some ⟨t.date, t.micros, none⟩ :=
  read?_of_time (readDate?_of_writes t.date.writes_text fun _ hc => Option.some.inj hc ▸ by decide) (readTime?_clockText t)

theorem read?_clockForm_designated (t : Timestamp) :
    read? (t.clockForm ++ "+00:00".toList) = some ⟨t.date, t.micros, some .utc⟩ := by
  rw [clockForm, List.append_assoc, List.cons_append]
  exact read?_of_time (readDate?_of_writes t.date.writes_text fun _ hc => Option.some.inj hc ▸ by decide)
    (readTime?_designated (readTime?_clockText t))

theorem toUtc?_of_utc {t : Timestamp} (h : t.offset = some .utc) : t.toUtc? = some t := by
  rw [toUtc?_of_offset h, ofInstant?_eq_some_iff]
  exact ⟨h, (Int.sub_zero _).symm⟩

theorem offset_of_toUtc? {l t : Timestamp} (h : l.toUtc? = some t) : l.offset = none ∧ t = l ∨ t.offset = some .utc := by
  cases ho : l.offset with
  | none =>
    rw [toUtc?_of_naive ho] at h
    exact .inl ⟨rfl, (Option.some.inj h).symm⟩
  | some o =>
    rw [toUtc?_of_offset ho] at h
    exact .inr (ofInstant?_eq_some_iff.1 h).1

end Timestamp

/-! ## Raw texts -/

namespace Raw

/-- A text with each `Z` written out as an offset. -/
def spelledOut (cs : List Char) : List Char := cs.flatMap fun c => if c = 'Z' then "+00:00".toList else [c]

theorem zoned_eq (raw : String) : zoned raw = spelledOut (trimBlank raw).toList := rfl

theorem spelledOut_append (cs ds : List Char) : spelledOut (cs ++ ds) = spelledOut cs ++ spelledOut ds := List.flatMap_append

theorem spelledOut_of_notMem : ∀ {cs : List Char}, 'Z' ∉ cs → spelledOut cs = cs
  | [], _ => rfl
  | c :: cs, h => by
    rw [List.mem_cons, not_or] at h
    obtain ⟨hc, hcs⟩ := h
    have ih : spelledOut cs = cs := spelledOut_of_notMem hcs
    rw [spelledOut, List.flatMap_cons, if_neg (Ne.symm hc), ← spelledOut, ih, List.singleton_append]

theorem zoned_around {before text behind : String} (hbefore : ∀ c ∈ before.toList, isBlank c = true)
    (htext : ∀ c ∈ text.toList, isBlank c = false) (hbehind : ∀ c ∈ behind.toList, isBlank c = true) :
    zoned (before ++ text ++ behind) = spelledOut text.toList := by
  have htrimmed : IsTrimmed isBlank text.toList :=
    ⟨fun c hc => htext c (List.mem_of_mem_head? hc), fun c hc => htext c (List.mem_of_getLast? hc)⟩
  rw [zoned_eq, trimBlank, String.toList_ofList, String.toList_append, String.toList_append,
    trimChars_around hbefore htrimmed hbehind]

theorem timestamp_eq_time_iff {raw : String} {t : Timestamp} :
    timestamp raw = .time t ↔ ∃ l, Timestamp.read? (zoned raw) = some l ∧ l.toUtc? = some t := by
  cases hread : Timestamp.read? (zoned raw) with
  | none =>
    rw [timestamp_of_unread hread]
    simp
  | some l =>
    rw [timestamp_of_read hread]
    cases hutc : l.toUtc? <;> simp [hutc]

end Raw

theorem Field.valueOf_timestamp {f : Field} (hf : f.kind = .scalar (.str "DateTime")) (raw : String) :
    f.valueOf raw = .ok (Raw.timestamp raw) := by
  rw [valueOf, hf]
  rfl

theorem isDigit_plain {c : Char} (h : c.isDigit = true) : isBlank c = false ∧ c ≠ 'Z' := by
  have hrange := isDigit_iff.1 h
  refine ⟨?_, ?_⟩
  · simp only [isBlank, isWhiteSpace, Bool.or_eq_false_iff, Bool.and_eq_false_iff, beq_eq_false_iff_ne,
      decide_eq_false_iff_not]
    omega
  · rintro rfl
    cases h

theorem Timestamp.plain_clockForm {t : Timestamp} : ∀ c ∈ t.clockForm, isBlank c = false ∧ c ≠ 'Z' := by
  intro c hc
  rcases List.mem_append.1 hc with hc | hc
  · rcases t.date.writes_text.mem hc with hdigit | rfl | rfl
    · exact isDigit_plain hdigit
    · decide
    · decide
  rcases List.mem_cons.1 hc with rfl | hc
  · decide
  · rcases mem_clockText hc with hdigit | rfl | rfl
    · exact isDigit_plain hdigit
    · decide
    · decide

namespace Timestamp

theorem plain_isoText {t : Timestamp} (h : t.offset = none ∨ t.offset = some .utc) :
    ∀ c ∈ t.isoText.toList, isBlank c = false ∧ c ≠ 'Z' := by
  intro c hc
  rcases h with h | h
  · rw [toList_isoText_naive h] at hc
    exact plain_clockForm c hc
  · rw [toList_isoText_utc h] at hc
    rcases List.mem_append.1 hc with hc | hc
    · exact plain_clockForm c hc
    · have hoffset : ∀ c ∈ "+00:00".toList, isBlank c = false ∧ c ≠ 'Z' := List.all_iff_forall_prop.1 (by decide)
      exact hoffset c hc

theorem read?_isoText {t : Timestamp} (h : t.offset = none ∨ t.offset = some .utc) : read? t.isoText.toList = some t := by
  rcases h with h | h
  · rw [toList_isoText_naive h, read?_clockForm, ← h]
  · rw [toList_isoText_utc h, read?_clockForm_designated, ← h]

end Timestamp

theorem Field.valueOf_of_read? {f : Field} (hf : f.kind = .scalar (.str "DateTime")) {raw : String} {t : Timestamp}
    (hread : Timestamp.read? (Raw.zoned raw) = some t) (h : t.offset = none ∨ t.offset = some .utc) :
    f.valueOf raw = .ok (.time t) := by
  have hutc : t.toUtc? = some t := by
    rcases h with h | h
    · exact Timestamp.toUtc?_of_naive h
    · exact Timestamp.toUtc?_of_utc h
  rw [valueOf_timestamp hf, Raw.timestamp_eq_time_iff.2 ⟨t, hread, hutc⟩]

section

variable {f : Field} {t : Timestamp} {before behind : String}

theorem Field.valueOf_around_isoText (hf : f.kind = .scalar (.str "DateTime")) (ht : t.offset = none ∨ t.offset = some .utc)
    (hbefore : ∀ c ∈ before.toList, isBlank c = true) (hbehind : ∀ c ∈ behind.toList, isBlank c = true) :
    f.valueOf (before ++ t.isoText ++ behind) = .ok (.time t) := by
  have hplain := Timestamp.plain_isoText ht
  refine valueOf_of_read? hf ?_ ht
  rw [Raw.zoned_around hbefore (fun c hc => (hplain c hc).1) hbehind,
    Raw.spelledOut_of_notMem fun hz => (hplain _ hz).2 rfl, Timestamp.read?_isoText ht]

theorem Raw.zoned_around_clockForm (hbefore : ∀ c ∈ before.toList, isBlank c = true)
    (hbehind : ∀ c ∈ behind.toList, isBlank c = true) :
    zoned (before ++ (String.ofList t.clockForm ++ "Z") ++ behind) = t.clockForm ++ "+00:00".toList := by
  have hplain := Timestamp.plain_clockForm (t := t)
  have htext : (String.ofList t.clockForm ++ "Z").toList = t.clockForm ++ "Z".toList := by
    rw [String.toList_append, String.toList_ofList]
  have hmark : ∀ c ∈ "Z".toList, isBlank c = false := List.all_iff_forall_prop.1 (by decide)
  have hspelled : spelledOut "Z".toList = "+00:00".toList := by decide
  rw [zoned_around hbefore _ hbehind, htext, spelledOut_append, spelledOut_of_notMem fun hz => (hplain _ hz).2 rfl, hspelled]
  intro c hc
  rw [htext] at hc
  rcases List.mem_append.1 hc with hc | hc
  · exact (hplain c hc).1
  · exact hmark c hc

theorem Field.offset_of_valueOf (hf : f.kind = .scalar (.str "DateTime")) {raw : String}
    (h : f.valueOf raw = .ok (.time t)) : t.offset = none ∨ t.offset = some .utc := by
  rw [valueOf_timestamp hf] at h
  obtain ⟨l, -, hutc⟩ := Raw.timestamp_eq_time_iff.1 (Except.ok.inj h)
  rcases Timestamp.offset_of_toUtc? hutc with ⟨hnaive, rfl⟩ | hutc
  · exact .inl hnaive
  · exact .inr hutc

end

/-- **Timestamps are read as they are written.**  A DateTime field reads the written form of a timestamp that has no
offset, or that of universal time, as that timestamp, whatever blanks stand around it, and reads a `Z` at the end as it
does the offset of universal time; and each timestamp that it has read is read again from its written form. -/
theorem Field.valueOf_isoText {f : Field} (hf : f.kind = .scalar (.str "DateTime")) :
    (∀ t : Timestamp, t.offset = none ∨ t.offset = some .utc → ∀ before behind : String,
      (∀ c ∈ before.toList, isBlank c = true) → (∀ c ∈ behind.toList, isBlank c = true) →
        f.valueOf (before ++ t.isoText ++ behind) = .ok (.time t)) ∧
    (∀ t : Timestamp, t.offset = some .utc → ∃ clock : String, t.isoText = clock ++ "+00:00" ∧ ∀ before behind : String,
      (∀ c ∈ before.toList, isBlank c = true) → (∀ c ∈ behind.toList, isBlank c = true) →
        f.valueOf (before ++ (clock ++ "Z") ++ behind) = .ok (.time t)) ∧
    ∀ raw t, f.valueOf raw = .ok (.time t) → f.valueOf t.isoText = .ok (.time t) := by
  refine ⟨fun t ht before behind hbefore hbehind => valueOf_around_isoText hf ht hbefore hbehind, ?_, ?_⟩
  · intro t ht
    refine ⟨String.ofList t.clockForm, ?_, fun before behind hbefore hbehind => valueOf_of_read? hf ?_ (.inr ht)⟩
    · have hform : (String.ofList t.clockForm).toList = t.clockForm := String.toList_ofList
      rw [← String.toList_inj, Timestamp.toList_isoText_utc ht, String.toList_append, hform]
    · rw [Raw.zoned_around_clockForm hbefore hbehind, ← Timestamp.toList_isoText_utc ht, Timestamp.read?_isoText (.inr ht)]
  · intro raw t hraw
    have hnone : ∀ c ∈ "".toList, isBlank c = true := by simp
    have hagain := valueOf_around_isoText hf (offset_of_valueOf hf hraw) hnone hnone
    rwa [String.empty_append, String.append_empty] at hagain

def lastOfNine : Timestamp := ⟨⟨9, 12, 31, by decide⟩, Timestamp.last.micros, some .utc⟩

def leapDay : Timestamp := ⟨⟨2024, 2, 29, by decide⟩, ⟨0, by decide⟩, none⟩

/-- A year of one digit, microseconds and both ways to write universal time; and a text that is not the written form. -/
theorem Field.valueOf_isoText_leapDay :
    let f : Field := ⟨.str "felled", .scalar (.str "DateTime"), false⟩
    f.valueOf "\u3000 0009-12-31T23:59:59.999999+00:00\n" = .ok (.time lastOfNine) ∧
      f.valueOf " 0009-12-31T23:59:59.999999Z" = .ok (.time lastOfNine) ∧
      f.valueOf "2024W094" = .ok (.time leapDay) ∧ f.valueOf "2024-02-29T00:00:00" = .ok (.time leapDay) := by
  intro f
  obtain ⟨hiso, hzulu, hagain⟩ := valueOf_isoText (f := f) rfl
  have htext : lastOfNine.isoText = "0009-12-31T23:59:59.999999" ++ "+00:00" := by decide +kernel
  have hleap : leapDay.isoText = "2024-02-29T00:00:00" := by decide +kernel
  have hweek : f.valueOf "2024W094" = .ok (.time leapDay) := by
    have hread : Timestamp.read? (Raw.zoned "2024W094") = some leapDay := by decide +kernel
    exact valueOf_of_read? rfl hread (.inl rfl)
  refine ⟨?_, ?_, hweek, ?_⟩
  · have h := hiso lastOfNine (.inr rfl) "\u3000 " "\n" (List.all_eq_true.1 (by decide)) (List.all_eq_true.1 (by decide))
    rwa [htext] at h
  · obtain ⟨clock, hclock, h⟩ := hzulu lastOfNine rfl
    rw [htext, String.append_left_inj] at hclock
    have h := h " " "" (List.all_eq_true.1 (by decide)) (List.all_eq_true.1 (by decide))
    rwa [← hclock] at h
  · rw [← hleap]
    exact hagain _ _ hweek

end ListQuery
