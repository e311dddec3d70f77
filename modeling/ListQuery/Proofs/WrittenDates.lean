import ListQuery.Proofs.WrittenScalars
import ListQuery.Timestamp.Printer
import ListQuery.Timestamp.Reader
import Mathlib.Algebra.Group.Nat.Defs
/-!
# How dates are written

The reader takes a date off the front of a text if the text begins with one of the six forms of a date, and leaves the rest
(`exists_writes_of_readDate?`); and it takes each form up to its end, if neither a digit nor a dash follows
(`readDate?_of_writes`).
-/
namespace ListQuery

/-! ## Numerals of fixed width -/

def lastDigits : (count n : Nat) → List Char
  | 0, _ => []
  | count + 1, n => (n / 10 ^ count % 10).digitChar :: lastDigits count n

theorem lastDigits_succ (n : Nat) : ∀ count : Nat,
    lastDigits (count + 1) n = lastDigits count (n / 10) ++ [(n % 10).digitChar]
  | 0 => by simp [lastDigits]
  | count + 1 => by
    have ih := lastDigits_succ n count
    rw [lastDigits, ih, lastDigits, Nat.div_div_eq_div_mul, Nat.pow_succ', List.cons_append]

theorem zeroFilled_decimal : ∀ {count n : Nat}, n < 10 ^ (count + 1) →
    zeroFilled (count + 1) (decimal n) = lastDigits (count + 1) n
  | 0, n, h => by
    have hn : n < 10 := by simpa using h
    rw [decimal, Nat.toDigits_of_lt_base hn]
    simp [zeroFilled, lastDigits, Nat.mod_eq_of_lt hn]
  | count + 1, n, h => by
    have hn : n / 10 < 10 ^ (count + 1) := Nat.div_lt_of_lt_mul (by rwa [← Nat.pow_succ'])
    have ih : zeroFilled (count + 1) (Nat.toDigits 10 (n / 10)) = lastDigits (count + 1) (n / 10) := zeroFilled_decimal hn
    rw [decimal, Json.zeroFilled_toDigits (by decide), ih, lastDigits_succ n]

theorem lastDigits_mod (n : Nat) : ∀ {count k : Nat}, count ≤ k → lastDigits count (n % 10 ^ k) = lastDigits count n
  | 0, _, _ => rfl
  | count + 1, k, h => by
    have hdigit : n % 10 ^ k / 10 ^ count % 10 = n / 10 ^ count % 10 := by
      obtain ⟨more, rfl⟩ := Nat.exists_eq_add_of_le h
      rw [Nat.pow_add, Nat.pow_succ, Nat.mul_assoc, Nat.mod_mul_right_div_self, Nat.mod_mod_of_dvd _ (Nat.dvd_mul_right ..)]
    rw [lastDigits, lastDigits, hdigit, lastDigits_mod n (Nat.le_of_succ_le h)]

theorem twoDigits_eq {n : Nat} (h : n < 100) : twoDigits n = lastDigits 2 n := @zeroFilled_decimal 1 n h

theorem digitChar_of_lt_ten : ∀ d < 10, d.digitChar.isDigit = true ∧ d.digitChar.toNat = d + '0'.toNat := by decide

theorem asciiDigit?_eq_some_iff {c : Char} {d : Nat} : asciiDigit? c = some d ↔ d < 10 ∧ c = d.digitChar := by
  unfold asciiDigit?
  constructor
  · intro h
    split at h
    · rename_i hdigit
      obtain rfl := Option.some.inj h
      have hrange := isDigit_iff.1 hdigit
      have hzero : '0'.toNat = 48 := rfl
      have hlt : c.toNat - '0'.toNat < 10 := by omega
      refine ⟨hlt, Char.toNat_inj.1 ?_⟩
      rw [(digitChar_of_lt_ten _ hlt).2]
      omega
    · cases h
  · rintro ⟨hd, rfl⟩
    obtain ⟨hdigit, hvalue⟩ := digitChar_of_lt_ten d hd
    rw [if_pos hdigit, hvalue, Nat.add_sub_cancel]

theorem digits?_eq_some_iff {count n : Nat} {cs rest : List Char} :
    digits? count cs = some (n, rest) ↔ n < 10 ^ count ∧ cs = lastDigits count n ++ rest := by
  induction count generalizing n cs with
  | zero =>
    rw [digits?, lastDigits, Option.some.injEq, Prod.mk.injEq, List.nil_append, Nat.pow_zero, Nat.lt_one_iff, eq_comm]
  | succ count ih =>
    cases cs with
    | nil => simp [digits?, lastDigits]
    | cons c cs =>
      have hpos : 0 < 10 ^ count := Nat.pow_pos (by decide)
      have hread : digits? (count + 1) (c :: cs) = some (n, rest) ↔
          ∃ d m, asciiDigit? c = some d ∧ digits? count cs = some (m, rest) ∧ d * 10 ^ count + m = n := by
        simp [digits?, Option.bind_eq_some_iff]
      simp only [hread, asciiDigit?_eq_some_iff, ih]
      rw [lastDigits, List.cons_append, List.cons.injEq, Nat.pow_succ']
      constructor
      · rintro ⟨d, m, ⟨hd, rfl⟩, ⟨hm, rfl⟩, rfl⟩
        have hdiv : (d * 10 ^ count + m) / 10 ^ count = d := by
          rw [Nat.mul_comm, Nat.mul_add_div hpos, Nat.div_eq_of_lt hm, Nat.add_zero]
        have hmod : (d * 10 ^ count + m) % 10 ^ count = m := by
          rw [Nat.mul_comm, Nat.mul_add_mod, Nat.mod_eq_of_lt hm]
        have hlast : lastDigits count (d * 10 ^ count + m) = lastDigits count m := by
          rw [← lastDigits_mod (d * 10 ^ count + m) (Nat.le_refl count), hmod]
        refine ⟨?_, by rw [hdiv, Nat.mod_eq_of_lt hd], by rw [hlast]⟩
        have hle := Nat.mul_le_mul_right (10 ^ count) (Nat.le_of_lt_succ hd)
        omega
      · rintro ⟨hn, rfl, rfl⟩
        have hd : n / 10 ^ count < 10 := Nat.div_lt_of_lt_mul (by rwa [Nat.mul_comm] at hn)
        refine ⟨n / 10 ^ count, n % 10 ^ count, ⟨hd, by rw [Nat.mod_eq_of_lt hd]⟩, ⟨Nat.mod_lt n hpos, ?_⟩, ?_⟩
        · rw [lastDigits_mod _ (Nat.le_refl count)]
        · rw [Nat.mul_comm, Nat.div_add_mod]

theorem digits?_append {count n : Nat} {cs rest : List Char} (h : digits? count cs = some (n, rest)) (more : List Char) :
    digits? count (cs ++ more) = some (n, rest ++ more) := by
  obtain ⟨hn, rfl⟩ := digits?_eq_some_iff.1 h
  exact digits?_eq_some_iff.2 ⟨hn, List.append_assoc ..⟩

theorem isDigit_of_mem_zeroFilled {c : Char} {width n : Nat} (h : c ∈ zeroFilled width (decimal n)) : c.isDigit = true := by
  rcases List.mem_append.1 h with h | h
  · rw [List.eq_of_mem_replicate h]
    rfl
  · exact isDigit_of_mem_decimal h

/-! ## The forms of a date -/

def yearText (year : Nat) : List Char := zeroFilled 4 (decimal year)

theorem yearText_eq {year : Nat} (h : year < 10000) : yearText year = lastDigits 4 year := @zeroFilled_decimal 3 year h

def dashes : List (List Char) := [[], ['-']]

theorem eq_of_mem_dashes {dash : List Char} (h : dash ∈ dashes) : dash = [] ∨ dash = ['-'] := by
  simpa [dashes] using h

/-- How a date is written: by month and day, or by week and day of the week, or by a week for its Monday; each with dashes
or without. -/
inductive Date.Writes (d : Date) : List Char → Prop
  | day {dash} : dash ∈ dashes → Writes d (yearText d.year ++ dash ++ twoDigits d.month ++ dash ++ twoDigits d.day)
  | week {dash year week} : dash ∈ dashes → year < 10000 → Date.ofWeek? year week 1 = some d →
      Writes d (yearText year ++ dash ++ 'W' :: twoDigits week)
  | weekday {dash year week day} : dash ∈ dashes → year < 10000 → Date.ofWeek? year week day = some d →
      Writes d (yearText year ++ dash ++ 'W' :: (twoDigits week ++ dash ++ [day.digitChar]))

theorem Date.writes_text (d : Date) : d.Writes d.text := by
  have h : d.Writes (yearText d.year ++ ['-'] ++ twoDigits d.month ++ ['-'] ++ twoDigits d.day) := .day (by decide)
  simpa [Date.text, yearText] using h

theorem Date.of?_eq_some_iff {year month day : Nat} {d : Date} :
    Date.of? year month day = some d ↔ d.year = year ∧ d.month = month ∧ d.day = day := by
  constructor
  · intro h
    unfold Date.of? at h
    split at h
    · obtain rfl := Option.some.inj h
      exact ⟨rfl, rfl, rfl⟩
    · cases h
  · rintro ⟨rfl, rfl, rfl⟩
    exact dif_pos d.inCalendar

theorem Date.fields_lt (d : Date) : d.year < 10000 ∧ d.month < 100 ∧ d.day < 100 := by
  obtain ⟨⟨-, hyear⟩, ⟨-, hmonth⟩, -, hday⟩ := d.inCalendar
  have hdays : ∀ year month, daysInMonth year month ≤ 31 := by
    intro year month
    unfold daysInMonth
    split <;> (try split) <;> decide
  have := hdays d.year d.month
  omega

theorem Date.week_lt {year week day : Nat} {d : Date} (h : Date.ofWeek? year week day = some d) :
    week < 100 ∧ 1 ≤ day ∧ day < 10 := by
  unfold Date.ofWeek? at h
  split at h
  · rename_i hweek
    have hweeks : weeksInYear year ≤ 53 := by
      unfold weeksInYear
      split <;> decide
    omega
  · cases h

/-! ## What is read as a date -/

/-- The two readers of a day of the week, told apart by the dash. -/
def weekday? (dash cs : List Char) : Option (Nat × List Char) := if dash = [] then compactWeekday? cs else dashedWeekday? cs

inductive ReadsDate (d : Date) (rest : List Char) : List Char → Prop
  | day {dash} : dash ∈ dashes →
      ReadsDate d rest (yearText d.year ++ (dash ++ (twoDigits d.month ++ (dash ++ (twoDigits d.day ++ rest)))))
  | week {dash year week day cs} : dash ∈ dashes → year < 10000 → Date.ofWeek? year week day = some d →
      weekday? dash cs = some (day, rest) → ReadsDate d rest (yearText year ++ (dash ++ 'W' :: (twoDigits week ++ cs)))

theorem readsDate_of_of? {dash rest : List Char} {year month day : Nat} {d : Date} (hdash : dash ∈ dashes)
    (hd : Date.of? year month day = some d) :
    ReadsDate d rest (yearText year ++ (dash ++ (twoDigits month ++ (dash ++ (twoDigits day ++ rest))))) := by
  obtain ⟨rfl, rfl, rfl⟩ := Date.of?_eq_some_iff.1 hd
  exact .day hdash

theorem readsDate_of_readDate? {cs rest : List Char} {d : Date} (h : readDate? cs = some (d, rest)) :
    ReadsDate d rest cs := by
  simp only [readDate?, Option.bind_eq_bind, Option.bind_eq_some_iff, Option.pure_def] at h
  obtain ⟨⟨year, rest₁⟩, hyear, h⟩ := h
  obtain ⟨hy, rfl⟩ := digits?_eq_some_iff.1 hyear
  rw [← yearText_eq hy]
  dsimp only at h
  split at h
  case h_1 =>
    simp only [Option.bind_eq_some_iff, Option.some.injEq, Prod.mk.injEq] at h
    obtain ⟨⟨week, rest₂⟩, hweek, ⟨day, rest₃⟩, hday, d, hd, rfl, rfl⟩ := h
    obtain ⟨hw, rfl⟩ := digits?_eq_some_iff.1 hweek
    rw [← twoDigits_eq hw]
    exact .week (by decide : ['-'] ∈ dashes) hy hd hday
  case h_2 =>
    simp only [Option.bind_eq_some_iff, Option.some.injEq, Prod.mk.injEq] at h
    obtain ⟨⟨week, rest₂⟩, hweek, ⟨day, rest₃⟩, hday, d, hd, rfl, rfl⟩ := h
    obtain ⟨hw, rfl⟩ := digits?_eq_some_iff.1 hweek
    rw [← twoDigits_eq hw]
    exact .week (by decide : [] ∈ dashes) hy hd hday
  case h_3 =>
    obtain ⟨⟨month, rest₂⟩, hmonth, hrest⟩ := Option.bind_eq_some_iff.1 h
    obtain ⟨hm, rfl⟩ := digits?_eq_some_iff.1 hmonth
    dsimp only at hrest
    split at hrest
    · simp only [Option.bind_eq_some_iff, Option.some.injEq, Prod.mk.injEq] at hrest
      obtain ⟨⟨day, rest₃⟩, hday, d, hd, rfl, rfl⟩ := hrest
      obtain ⟨hlt, rfl⟩ := digits?_eq_some_iff.1 hday
      rw [← twoDigits_eq hm, ← twoDigits_eq hlt]
      exact readsDate_of_of? (by decide : ['-'] ∈ dashes) hd
    · cases hrest
  case h_4 =>
    simp only [Option.bind_eq_some_iff, Option.some.injEq, Prod.mk.injEq] at h
    obtain ⟨⟨month, rest₂⟩, hmonth, ⟨day, rest₃⟩, hday, d, hd, rfl, rfl⟩ := h
    obtain ⟨hm, rfl⟩ := digits?_eq_some_iff.1 hmonth
    obtain ⟨hlt, rfl⟩ := digits?_eq_some_iff.1 hday
    rw [← twoDigits_eq hm, ← twoDigits_eq hlt]
    exact readsDate_of_of? (by decide : [] ∈ dashes) hd

theorem digits?_yearText {year : Nat} (h : year < 10000) (rest : List Char) :
    digits? 4 (yearText year ++ rest) = some (year, rest) := by
  rw [yearText_eq h]
  exact digits?_eq_some_iff.2 ⟨h, rfl⟩

theorem digits?_twoDigits {n : Nat} (h : n < 100) (rest : List Char) : digits? 2 (twoDigits n ++ rest) = some (n, rest) := by
  rw [twoDigits_eq h]
  exact digits?_eq_some_iff.2 ⟨h, rfl⟩

theorem twoDigits_append_ne_cons {n : Nat} (h : n < 100) {c : Char} (hc : c.isDigit = false) (rest more : List Char) :
    twoDigits n ++ rest ≠ c :: more := by
  intro heq
  have hmem : c ∈ twoDigits n := by
    rw [twoDigits_eq h] at heq ⊢
    rw [← (List.cons.inj heq).1]
    exact List.mem_cons_self
  rw [isDigit_of_mem_zeroFilled hmem] at hc
  cases hc

theorem ReadsDate.readDate? {cs rest : List Char} {d : Date} (h : ReadsDate d rest cs) : readDate? cs = some (d, rest) := by
  cases h with
  | day hdash =>
    obtain ⟨hyear, hmonth, hday⟩ := d.fields_lt
    have hd : Date.of? d.year d.month d.day = some d := Date.of?_eq_some_iff.2 ⟨rfl, rfl, rfl⟩
    simp only [ListQuery.readDate?, digits?_yearText hyear, Option.bind_eq_bind, Option.bind_some]
    rcases eq_of_mem_dashes hdash with rfl | rfl
    · simp only [List.nil_append]
      split
      · rename_i heq
        exact absurd heq (twoDigits_append_ne_cons hmonth rfl _ _)
      · rename_i heq
        exact absurd heq (twoDigits_append_ne_cons hmonth rfl _ _)
      · rename_i heq
        exact absurd heq (twoDigits_append_ne_cons hmonth rfl _ _)
      · simp only [digits?_twoDigits hmonth, digits?_twoDigits hday, Option.bind_some, hd, Option.pure_def]
    · simp only [List.cons_append, List.nil_append]
      split
      · rename_i heq
        exact absurd (List.cons.inj heq).2 (twoDigits_append_ne_cons hmonth rfl _ _)
      · rename_i heq
        cases (List.cons.inj heq).1
      · rename_i heq
        obtain rfl := (List.cons.inj heq).2
        simp only [digits?_twoDigits hmonth, digits?_twoDigits hday, Option.bind_some, hd, Option.pure_def]
      · rename_i _ _ hdash
        exact (hdash _ rfl).elim
  | week hdash hy hd hday =>
    have hw := (Date.week_lt hd).1
    rcases eq_of_mem_dashes hdash with rfl | rfl
    · simp only [weekday?, if_true] at hday
      simp only [ListQuery.readDate?, digits?_yearText hy, Option.bind_eq_bind, Option.bind_some, List.nil_append,
        digits?_twoDigits hw, hday, hd, Option.pure_def]
    · simp only [weekday?, List.cons_ne_self, if_false] at hday
      simp only [ListQuery.readDate?, digits?_yearText hy, Option.bind_eq_bind, Option.bind_some, List.cons_append,
        List.nil_append, digits?_twoDigits hw, hday, hd, Option.pure_def]

theorem readDate?_eq_some_iff {cs rest : List Char} {d : Date} : readDate? cs = some (d, rest) ↔ ReadsDate d rest cs :=
  ⟨readsDate_of_readDate?, ReadsDate.readDate?⟩

/-! ## Days of the week -/

theorem digits?_one_eq_some_iff {day : Nat} {cs rest : List Char} :
    digits? 1 cs = some (day, rest) ↔ day < 10 ∧ cs = day.digitChar :: rest := by
  rw [digits?_eq_some_iff, Nat.pow_one]
  refine and_congr_right fun hday => ?_
  simp [lastDigits, Nat.mod_eq_of_lt hday]

theorem of_weekday? {dash cs rest : List Char} {day : Nat} (hdash : dash ∈ dashes)
    (h : weekday? dash cs = some (day, rest)) :
    day = 1 ∧ cs = rest ∨ day < 10 ∧ cs = dash ++ day.digitChar :: rest := by
  rcases eq_of_mem_dashes hdash with rfl | rfl
  · rw [weekday?, if_pos rfl, compactWeekday?] at h
    split at h
    · exact .inr (digits?_one_eq_some_iff.1 h)
    · cases h
      exact .inl ⟨rfl, rfl⟩
  · rw [weekday?, if_neg (List.cons_ne_nil _ _)] at h
    unfold dashedWeekday? at h
    split at h
    · cases h
    · split at h
      · cases h
        exact .inl ⟨rfl, rfl⟩
      · obtain ⟨hday, heq⟩ := digits?_one_eq_some_iff.1 h
        exact .inr ⟨hday, congrArg _ heq⟩
    · cases h
      exact .inl ⟨rfl, rfl⟩

def EndsDate (rest : List Char) : Prop := ∀ c ∈ rest.head?, c.isDigit = false ∧ c ≠ '-'

theorem weekday?_of_endsDate (dash : List Char) {rest : List Char} (h : EndsDate rest) :
    weekday? dash rest = some (1, rest) := by
  rcases rest with _ | ⟨c, rest⟩
  · by_cases hdash : dash = [] <;> simp [weekday?, hdash, compactWeekday?, dashedWeekday?]
  · obtain ⟨hdigit, hc⟩ := h c rfl
    by_cases hdash : dash = []
    · simp [weekday?, hdash, compactWeekday?, hdigit]
    · rw [weekday?, if_neg hdash, dashedWeekday?]
      · simp [hc]
      · simp [hc]

theorem takeWhile_append_endsDate (cs : List Char) {more : List Char} (h : EndsDate more) :
    (cs ++ more).takeWhile Char.isDigit = cs.takeWhile Char.isDigit := by
  have hmore : more.takeWhile Char.isDigit = [] := by
    cases more with
    | nil => rfl
    | cons c more => exact List.takeWhile_cons_of_neg (by simp [(h c rfl).1])
  rw [List.takeWhile_append, hmore, List.append_nil]
  split
  · rename_i hlength
    exact ((List.takeWhile_prefix _).eq_of_length hlength).symm
  · rfl

theorem compactWeekday?_append {cs rest more : List Char} {day : Nat} (h : compactWeekday? cs = some (day, rest))
    (hmore : EndsDate more) : compactWeekday? (cs ++ more) = some (day, rest ++ more) := by
  rw [compactWeekday?] at h ⊢
  rw [takeWhile_append_endsDate cs hmore]
  split at h
  · rename_i hrun
    rw [if_pos hrun]
    exact digits?_append h more
  · rename_i hrun
    cases h
    rw [if_neg hrun]

theorem dashedWeekday?_append {cs rest more : List Char} {day : Nat} (h : dashedWeekday? cs = some (day, rest))
    (hmore : EndsDate more) : dashedWeekday? (cs ++ more) = some (day, rest ++ more) := by
  unfold dashedWeekday? at h
  split at h
  · cases h
  · rename_i d behind
    have hnext : ((behind ++ more).head?.bind asciiDigit?).isSome = (behind.head?.bind asciiDigit?).isSome := by
      rcases behind with _ | ⟨c, behind⟩
      · rcases more with _ | ⟨c, more⟩
        · rfl
        · simp [asciiDigit?, (hmore c rfl).1]
      · rfl
    rw [List.cons_append, List.cons_append, dashedWeekday?, hnext]
    split at h
    · rename_i hdigit
      cases h
      rw [if_pos hdigit]
      rfl
    · rename_i hdigit
      rw [if_neg hdigit, ← List.cons_append]
      exact digits?_append h more
  · rename_i hone hmany
    cases h
    rcases cs with _ | ⟨c, cs⟩
    · have hrest := weekday?_of_endsDate ['-'] hmore
      rwa [weekday?, if_neg (List.cons_ne_nil _ _)] at hrest
    · have hc : c ≠ '-' := by
        rintro rfl
        rcases cs with _ | ⟨d, cs⟩
        · exact hone rfl
        · exact hmany d cs rfl
      rw [List.cons_append, dashedWeekday?]
      · simp [hc]
      · simp [hc]

theorem weekday?_append {dash cs rest more : List Char} {day : Nat} (h : weekday? dash cs = some (day, rest))
    (hmore : EndsDate more) : weekday? dash (cs ++ more) = some (day, rest ++ more) := by
  by_cases hdash : dash = []
  · rw [weekday?, if_pos hdash] at h ⊢
    exact compactWeekday?_append h hmore
  · rw [weekday?, if_neg hdash] at h ⊢
    exact dashedWeekday?_append h hmore

theorem readDate?_append {cs rest more : List Char} {d : Date} (h : readDate? cs = some (d, rest)) (hmore : EndsDate more) :
    readDate? (cs ++ more) = some (d, rest ++ more) := by
  rw [readDate?_eq_some_iff] at h ⊢
  cases h with
  | day hdash => simpa using ReadsDate.day (d := d) hdash
  | week hdash hy hd hday => simpa using ReadsDate.week hdash hy hd (weekday?_append hday hmore)

/-! ## Dates are read as they are written -/

theorem exists_writes_of_readDate? {cs rest : List Char} {d : Date} (h : readDate? cs = some (d, rest)) :
    ∃ text, cs = text ++ rest ∧ d.Writes text := by
  cases readDate?_eq_some_iff.1 h with
  | day hdash => exact ⟨_, by simp, .day hdash⟩
  | week hdash hy hd hday =>
    rcases of_weekday? hdash hday with ⟨rfl, rfl⟩ | ⟨-, rfl⟩
    · exact ⟨_, by simp, .week hdash hy hd⟩
    · exact ⟨_, by simp, .weekday hdash hy hd⟩

theorem weekday?_digitChar {dash : List Char} (hdash : dash ∈ dashes) {day : Nat} (hlt : day < 10) :
    weekday? dash (dash ++ [day.digitChar]) = some (day, []) := by
  have hday : digits? 1 [day.digitChar] = some (day, []) := digits?_one_eq_some_iff.2 ⟨hlt, rfl⟩
  rcases eq_of_mem_dashes hdash with rfl | rfl
  · rw [weekday?, if_pos rfl, List.nil_append, compactWeekday?, List.takeWhile_cons_of_pos (digitChar_of_lt_ten day hlt).1]
    exact hday
  · exact hday

theorem readDate?_text {d : Date} {text : List Char} (h : d.Writes text) : readDate? text = some (d, []) := by
  rw [readDate?_eq_some_iff]
  have hnone : EndsDate [] := fun _ hc => nomatch hc
  cases h with
  | day hdash => simpa using (ReadsDate.day hdash : ReadsDate d [] _)
  | @week dash _ _ hdash hy hd => simpa using ReadsDate.week hdash hy hd (weekday?_of_endsDate dash hnone)
  | weekday hdash hy hd => simpa using ReadsDate.week hdash hy hd (weekday?_digitChar hdash (Date.week_lt hd).2.2)

theorem readDate?_of_writes {d : Date} {text rest : List Char} (h : d.Writes text) (hrest : EndsDate rest) :
    readDate? (text ++ rest) = some (d, rest) := readDate?_append (readDate?_text h) hrest

theorem Date.Writes.mem {d : Date} {text : List Char} (h : d.Writes text) {c : Char} (hc : c ∈ text) :
    c.isDigit = true ∨ c = '-' ∨ c = 'W' := by
  have hsep : ∀ {dash : List Char}, dash ∈ dashes → c ∈ dash → c = '-' := by
    rintro dash hdash hc
    rcases eq_of_mem_dashes hdash with rfl | rfl
    · cases hc
    · exact List.mem_singleton.1 hc
  cases h with
  | day hdash =>
    simp only [List.mem_append] at hc
    rcases hc with (((hc | hc) | hc) | hc) | hc
    · exact .inl (isDigit_of_mem_zeroFilled hc)
    · exact .inr (.inl (hsep hdash hc))
    · exact .inl (isDigit_of_mem_zeroFilled hc)
    · exact .inr (.inl (hsep hdash hc))
    · exact .inl (isDigit_of_mem_zeroFilled hc)
  | week hdash =>
    simp only [List.mem_append, List.mem_cons] at hc
    rcases hc with (hc | hc) | hc | hc
    · exact .inl (isDigit_of_mem_zeroFilled hc)
    · exact .inr (.inl (hsep hdash hc))
    · exact .inr (.inr hc)
    · exact .inl (isDigit_of_mem_zeroFilled hc)
  | weekday hdash _ hd =>
    simp only [List.mem_append, List.mem_cons, List.not_mem_nil, or_false] at hc
    rcases hc with (hc | hc) | hc | (hc | hc) | hc
    · exact .inl (isDigit_of_mem_zeroFilled hc)
    · exact .inr (.inl (hsep hdash hc))
    · exact .inr (.inr hc)
    · exact .inl (isDigit_of_mem_zeroFilled hc)
    · exact .inr (.inl (hsep hdash hc))
    · exact .inl (hc ▸ (digitChar_of_lt_ten _ (Date.week_lt hd).2.2).1)

theorem Date.Writes.notMem {d : Date} {text : List Char} (h : d.Writes text) {c : Char} (hdigit : c.isDigit = false)
    (hdash : c ≠ '-') (hweek : c ≠ 'W') : c ∉ text := by
  intro hc
  rcases h.mem hc with hc | hc | hc
  · exact Bool.false_ne_true (hdigit.symm.trans hc)
  · exact hdash hc
  · exact hweek hc

end ListQuery
