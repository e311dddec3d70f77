import ListQuery.Timestamp.Calendar
/-!
# The numbers of the days

The days of the calendar are numbered without a gap, in the order of their years, months and days: a year ends where the next
one begins, and so does a month.  Main statements: `Date.ordinal_lt_iff` (numbers stand in the order of the dates) and
`Date.ofOrdinal?_eq_some_iff` (each number up to the last is the number of one date, which is found).
-/
namespace ListQuery

/-! ## Years -/

def daysInYear (year : Nat) : Nat := if isLeapYear year then 366 else 365

theorem succ_div_eq (n k : Nat) : (n + 1) / k = n / k + if (n + 1) % k = 0 then 1 else 0 := by
  rw [Nat.succ_div]
  simp only [Nat.dvd_iff_mod_eq_zero]

theorem daysBeforeYear_succ {year : Nat} (h : 1 ≤ year) :
    daysBeforeYear (year + 1) = daysBeforeYear year + daysInYear year := by
  obtain ⟨past, rfl⟩ := Nat.exists_eq_add_of_le' h
  have hcenturies : past / 100 ≤ past / 4 := by omega
  simp only [daysBeforeYear, daysInYear, isLeapYear, Nat.add_sub_cancel, succ_div_eq past 4, succ_div_eq past 100,
    succ_div_eq past 400, Bool.and_eq_true, Bool.or_eq_true, beq_iff_eq, bne_iff_ne, ne_eq]
  by_cases h4 : (past + 1) % 4 = 0
  · by_cases h100 : (past + 1) % 100 = 0
    · by_cases h400 : (past + 1) % 400 = 0
      · simp only [h4, h100, h400, if_true, not_true_eq_false, or_true, and_true]
        omega
      · simp only [h4, h100, h400, if_true, if_false, not_true_eq_false, or_false, and_false]
        omega
    · have h400 : ¬(past + 1) % 400 = 0 := by omega
      simp only [h4, h100, h400, if_true, if_false, not_false_eq_true, or_false, and_true]
      omega
  · have h100 : ¬(past + 1) % 100 = 0 := by omega
    have h400 : ¬(past + 1) % 400 = 0 := by omega
    simp only [h4, h100, h400, if_false, false_and]
    omega

theorem daysBeforeYear_mono {y z : Nat} (h : y ≤ z) : daysBeforeYear y ≤ daysBeforeYear z := by
  induction h with
  | refl => exact Nat.le_refl _
  | @step z _ ih =>
    cases z with
    | zero => exact ih
    | succ z =>
      rw [Nat.succ_eq_add_one, daysBeforeYear_succ (Nat.le_add_left 1 z)]
      exact Nat.le_add_right_of_le ih

/-- In 400 years there are 146097 days, and the start of a year is never two days off the even spread of them. -/
theorem daysBeforeYear_near (past : Nat) :
    400 * daysBeforeYear (past + 1) ≤ 146097 * past + 396 ∧ 146097 * past ≤ 400 * daysBeforeYear (past + 1) + 699 := by
  unfold daysBeforeYear
  rw [Nat.add_sub_cancel]
  have h4 : 4 * (past / 4) ≤ past ∧ past ≤ 4 * (past / 4) + 3 := by omega
  have h100 : 100 * (past / 100) ≤ past ∧ past ≤ 100 * (past / 100) + 99 := by omega
  have h400 : 400 * (past / 400) ≤ past ∧ past ≤ 400 * (past / 400) + 399 := by omega
  generalize past / 4 = fours at *
  generalize past / 100 = centuries at *
  generalize past / 400 = cycles at *
  dsimp only
  omega

/-- **A numbered day lies in its year.**  The year that is guessed is off by one at most. -/
theorem yearOfOrdinal_spec {n : Nat} (h : 1 ≤ n) :
    1 ≤ yearOfOrdinal n ∧ daysBeforeYear (yearOfOrdinal n) < n ∧ n ≤ daysBeforeYear (yearOfOrdinal n + 1) := by
  have hguess : 146097 * ((n - 1) * 400 / 146097) ≤ 400 * (n - 1) ∧
      400 * (n - 1) < 146097 * ((n - 1) * 400 / 146097) + 146097 := by omega
  unfold yearOfOrdinal
  dsimp only
  generalize (n - 1) * 400 / 146097 = past at hguess ⊢
  split
  · rename_i hlate
    cases past with
    | zero =>
      rw [show daysBeforeYear (0 + 1) = 0 from rfl] at hlate
      omega
    | succ past =>
      have hnear := daysBeforeYear_near past
      rw [Nat.add_sub_cancel]
      exact ⟨Nat.le_add_left 1 past, by omega, hlate⟩
  · rename_i hlate
    split
    · rename_i hearly
      obtain ⟨-, hnear⟩ := daysBeforeYear_near (past + 1 + 1)
      exact ⟨Nat.le_add_left 1 _, hearly, by omega⟩
    · rename_i hearly
      exact ⟨Nat.le_add_left 1 past, Nat.lt_of_not_le hlate, Nat.le_of_not_lt hearly⟩

theorem yearOfOrdinal_zero : yearOfOrdinal 0 = 0 := by decide

/-! ## Months -/

theorem daysBeforeMonth_succ (year : Nat) {month : Nat} (h : 1 ≤ month) :
    daysBeforeMonth year (month + 1) = daysBeforeMonth year month + daysInMonth year month := by
  obtain ⟨m, rfl⟩ := Nat.exists_eq_add_of_le' h
  rfl

theorem daysBeforeMonth_mono (year : Nat) {l m : Nat} (hl : 1 ≤ l) (h : l ≤ m) :
    daysBeforeMonth year l ≤ daysBeforeMonth year m := by
  induction h with
  | refl => exact Nat.le_refl _
  | @step m h ih =>
    rw [Nat.succ_eq_add_one, daysBeforeMonth_succ year (Nat.le_trans hl h)]
    exact Nat.le_add_right_of_le ih

theorem daysBeforeMonth_thirteen (year : Nat) : daysBeforeMonth year 13 = daysInYear year := by
  unfold daysInYear
  cases h : isLeapYear year <;> simp [daysBeforeMonth, daysInMonth, h]

/-- **A numbered day of a year lies in its month.**  Counted on from a month, it stays as far from the start of the year. -/
theorem monthOfDay_spec (year : Nat) : ∀ (monthsLeft month day : Nat), 1 ≤ month → 1 ≤ day →
    daysBeforeMonth year month + day ≤ daysBeforeMonth year (month + monthsLeft + 1) →
    ∃ m d, monthOfDay year monthsLeft month day = (m, d) ∧ month ≤ m ∧ m ≤ month + monthsLeft ∧ 1 ≤ d ∧
      d ≤ daysInMonth year m ∧ daysBeforeMonth year m + d = daysBeforeMonth year month + day
  | 0, month, day, hm, hd, hle => by
    rw [Nat.add_zero, daysBeforeMonth_succ year hm] at hle
    exact ⟨month, day, rfl, Nat.le_refl _, Nat.le_refl _, hd, by omega, rfl⟩
  | monthsLeft + 1, month, day, hm, hd, hle => by
    rw [monthOfDay]
    split
    · rename_i hday
      exact ⟨month, day, rfl, Nat.le_refl _, by omega, hd, hday, rfl⟩
    · rename_i hday
      have hsucc := daysBeforeMonth_succ year hm
      have hle' : daysBeforeMonth year (month + 1) + (day - daysInMonth year month) ≤
          daysBeforeMonth year (month + 1 + monthsLeft + 1) := by
        rw [show month + 1 + monthsLeft + 1 = month + (monthsLeft + 1) + 1 by omega, hsucc]
        omega
      obtain ⟨m, d, heq, hlow, hhigh, hpos, hbound, hsum⟩ :=
        monthOfDay_spec year monthsLeft (month + 1) (day - daysInMonth year month) (by omega) (by omega) hle'
      exact ⟨m, d, heq, by omega, by omega, hpos, hbound, by omega⟩

/-! ## Dates -/

namespace Date

theorem ext_of_fields {d e : Date} (hy : d.year = e.year) (hm : d.month = e.month) (hd : d.day = e.day) : d = e := by
  cases d
  cases e
  simp_all

theorem ordinal_in_month (d : Date) :
    daysBeforeYear d.year + daysBeforeMonth d.year d.month < d.ordinal ∧
      d.ordinal ≤ daysBeforeYear d.year + daysBeforeMonth d.year (d.month + 1) := by
  obtain ⟨-, ⟨hm, -⟩, hd, hdays⟩ := d.inCalendar
  have hsucc := daysBeforeMonth_succ d.year hm
  unfold ordinal
  omega

theorem ordinal_in_year (d : Date) : daysBeforeYear d.year < d.ordinal ∧ d.ordinal ≤ daysBeforeYear (d.year + 1) := by
  obtain ⟨⟨hy, -⟩, ⟨-, hm⟩, -, -⟩ := d.inCalendar
  have hmonth := d.ordinal_in_month
  have hend := daysBeforeMonth_mono d.year (Nat.le_add_left 1 d.month) (Nat.succ_le_succ hm)
  rw [daysBeforeMonth_thirteen] at hend
  rw [daysBeforeYear_succ hy]
  omega

theorem ordinal_lt_of_year_lt {d e : Date} (h : d.year < e.year) : d.ordinal < e.ordinal :=
  Nat.lt_of_le_of_lt (Nat.le_trans d.ordinal_in_year.2 (daysBeforeYear_mono h)) e.ordinal_in_year.1

theorem ordinal_lt_of_month_lt {d e : Date} (hy : d.year = e.year) (h : d.month < e.month) : d.ordinal < e.ordinal := by
  have hmono := daysBeforeMonth_mono e.year (Nat.le_add_left 1 d.month) h
  have hd := d.ordinal_in_month.2
  have he := e.ordinal_in_month.1
  rw [hy] at hd
  omega

theorem ordinal_lt_of_day_lt {d e : Date} (hy : d.year = e.year) (hm : d.month = e.month) (h : d.day < e.day) :
    d.ordinal < e.ordinal := by
  unfold ordinal
  rw [hy, hm]
  omega

def IsBefore (d e : Date) : Prop :=
  d.year < e.year ∨ d.year = e.year ∧ (d.month < e.month ∨ d.month = e.month ∧ d.day < e.day)

theorem ordinal_lt_of_isBefore {d e : Date} (h : d.IsBefore e) : d.ordinal < e.ordinal := by
  rcases h with hy | ⟨hy, hm | ⟨hm, hd⟩⟩
  · exact ordinal_lt_of_year_lt hy
  · exact ordinal_lt_of_month_lt hy hm
  · exact ordinal_lt_of_day_lt hy hm hd

theorem eq_or_isBefore (d e : Date) : d = e ∨ d.IsBefore e ∨ e.IsBefore d := by
  by_cases h : d.year = e.year ∧ d.month = e.month ∧ d.day = e.day
  · exact .inl (ext_of_fields h.1 h.2.1 h.2.2)
  · unfold IsBefore
    omega

theorem ordinal_lt_iff {d e : Date} : d.ordinal < e.ordinal ↔ d.IsBefore e := by
  refine ⟨fun h => ?_, ordinal_lt_of_isBefore⟩
  rcases eq_or_isBefore d e with rfl | hbefore | hafter
  · exact absurd h (Nat.lt_irrefl _)
  · exact hbefore
  · exact absurd (ordinal_lt_of_isBefore hafter) (Nat.lt_asymm h)

theorem ordinal_inj {d e : Date} : d.ordinal = e.ordinal ↔ d = e := by
  refine ⟨fun h => ?_, fun h => h ▸ rfl⟩
  rcases eq_or_isBefore d e with rfl | hbefore | hafter
  · rfl
  · exact absurd h (Nat.ne_of_lt (ordinal_lt_of_isBefore hbefore))
  · exact absurd h (Nat.ne_of_gt (ordinal_lt_of_isBefore hafter))

def lastOrdinal : Nat := 3652059

theorem lastOrdinal_eq : lastOrdinal = daysBeforeYear 10000 := by decide

theorem ordinal_le_lastOrdinal (d : Date) : d.ordinal ≤ lastOrdinal :=
  lastOrdinal_eq ▸ Nat.le_trans d.ordinal_in_year.2 (daysBeforeYear_mono (Nat.succ_le_succ d.inCalendar.1.2))

theorem one_le_ordinal (d : Date) : 1 ≤ d.ordinal := Nat.lt_of_le_of_lt (Nat.zero_le _) d.ordinal_in_year.1

theorem of?_eq_some {year month day : Nat} (h : (1 ≤ year ∧ year ≤ 9999) ∧ (1 ≤ month ∧ month ≤ 12) ∧ 1 ≤ day ∧
    day ≤ daysInMonth year month) : of? year month day = some ⟨year, month, day, h⟩ := dif_pos h

theorem of?_eq_none {year month day : Nat} (h : ¬(1 ≤ year ∧ year ≤ 9999)) : of? year month day = none :=
  dif_neg fun hall => h hall.1

theorem exists_ofOrdinal?_eq {n : Nat} (hpos : 1 ≤ n) (hlast : n ≤ lastOrdinal) :
    ∃ d, ofOrdinal? n = some d ∧ d.ordinal = n := by
  obtain ⟨hy, hafter, hbefore⟩ := yearOfOrdinal_spec hpos
  have hyear : yearOfOrdinal n ≤ 9999 := by
    refine Nat.le_of_not_lt fun hlarge => ?_
    have hmono := daysBeforeYear_mono (Nat.succ_le_of_lt hlarge)
    rw [← lastOrdinal_eq] at hmono
    omega
  rw [daysBeforeYear_succ hy, ← daysBeforeMonth_thirteen] at hbefore
  have hend : daysBeforeMonth (yearOfOrdinal n) 1 + (n - daysBeforeYear (yearOfOrdinal n)) ≤
      daysBeforeMonth (yearOfOrdinal n) 13 := by
    rw [daysBeforeMonth]
    omega
  obtain ⟨m, d, heq, hlow, hhigh, hday, hdays, hsum⟩ :=
    monthOfDay_spec (yearOfOrdinal n) 11 1 (n - daysBeforeYear (yearOfOrdinal n)) (Nat.le_refl _) (by omega) hend
  refine ⟨_, by rw [ofOrdinal?, heq]; exact of?_eq_some ⟨⟨hy, hyear⟩, ⟨hlow, hhigh⟩, hday, hdays⟩, ?_⟩
  rw [daysBeforeMonth] at hsum
  unfold ordinal
  dsimp only
  omega

theorem ofOrdinal?_eq_none {n : Nat} (h : ¬(1 ≤ n ∧ n ≤ lastOrdinal)) : ofOrdinal? n = none := by
  have hyear : ¬(1 ≤ yearOfOrdinal n ∧ yearOfOrdinal n ≤ 9999) := by
    rintro ⟨hlow, hhigh⟩
    rcases Nat.eq_zero_or_pos n with rfl | hpos
    · rw [yearOfOrdinal_zero] at hlow
      cases hlow
    · have hmono := daysBeforeYear_mono (Nat.succ_le_succ hhigh)
      rw [← lastOrdinal_eq] at hmono
      exact h ⟨hpos, Nat.le_trans (yearOfOrdinal_spec hpos).2.2 hmono⟩
  exact of?_eq_none hyear

theorem ofOrdinal?_eq_some_iff {n : Nat} {d : Date} : ofOrdinal? n = some d ↔ d.ordinal = n := by
  by_cases h : 1 ≤ n ∧ n ≤ lastOrdinal
  · obtain ⟨e, he, rfl⟩ := exists_ofOrdinal?_eq h.1 h.2
    rw [he, Option.some.injEq, ordinal_inj]
    exact eq_comm
  · rw [ofOrdinal?_eq_none h]
    refine ⟨fun hnone => (nomatch hnone), ?_⟩
    rintro rfl
    exact absurd ⟨d.one_le_ordinal, d.ordinal_le_lastOrdinal⟩ h

end Date
end ListQuery
