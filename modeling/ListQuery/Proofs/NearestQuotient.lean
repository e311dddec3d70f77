import Mathlib.Tactic.Ring
import ListQuery.Binary64.Rounding
/-!
# Quotients and whole numbers

A rounded quotient is a significand of at most 2⁵³ at a last place, which is a power of two (`units_rankOfRatio`).  A whole
number below 2⁵³ is a multiple of every last place below it, so that rounding stops there; and of two quotients of numbers
up to 2⁵³, one above a whole number lies too far above it to be rounded down to it.  Main statements:
`lt_units_rankOfRatio_iff` (rounding does not cross a whole number) and `magnitudeCount_le_rankOfRatio_iff` (which quotients
are rounded to an infinity).
-/
namespace ListQuery.Binary64

theorem unitsInOne_eq : unitsInOne = 2 ^ 1074 := by decide +kernel

/-! ## Rounding to a natural number -/

theorem roundDiv_nearest {d : Nat} (hd : 0 < d) (n : Nat) :
    2 * (roundDiv n d * d) ≤ 2 * n + d ∧ 2 * n ≤ 2 * (roundDiv n d * d) + d ∧
      (2 * n = 2 * (roundDiv n d * d) + d → roundDiv n d % 2 = 0) := by
  have hn : n / d * d + n % d = n := by rw [Nat.mul_comm]; exact Nat.div_add_mod n d
  have hr : n % d < d := Nat.mod_lt n hd
  have hsucc : (n / d + 1) * d = n / d * d + d := Nat.succ_mul _ _
  unfold roundDiv
  dsimp only
  split
  · omega
  split
  · omega
  obtain h | h := Nat.mod_two_eq_zero_or_one (n / d) <;> rw [h]
  · rw [Nat.add_zero]
    omega
  · omega

theorem roundDiv_le {n d m : Nat} (hd : 0 < d) (h : n ≤ m * d) : roundDiv n d ≤ m := by
  obtain ⟨hlow, -, -⟩ := roundDiv_nearest hd n
  by_contra hm
  have hstep : (m + 1) * d ≤ roundDiv n d * d := Nat.mul_le_mul_right d (by omega)
  rw [Nat.succ_mul] at hstep
  omega

theorem le_roundDiv {n d m : Nat} (hd : 0 < d) (h : m * d ≤ n) : m ≤ roundDiv n d := by
  obtain ⟨-, hhigh, -⟩ := roundDiv_nearest hd n
  by_contra hm
  have hstep : (roundDiv n d + 1) * d ≤ m * d := Nat.mul_le_mul_right d (by omega)
  rw [Nat.succ_mul] at hstep
  omega

/-! ## Significand and last place -/

theorem two_pow_mul_le {a b k : Nat} (h : a + b ≤ k) : 2 ^ a * 2 ^ b ≤ 2 ^ k := by
  rw [← Nat.pow_add]
  exact Nat.pow_le_pow_right (by decide) h

/-- How far the last place of a rounded quotient lies above the smallest unit, in powers of two. -/
def lastPlace (n d : Nat) : Nat := (n * unitsInOne / d).log2 - 52

def roundedSignificand (n d : Nat) : Nat := roundDiv (n * unitsInOne) (d * 2 ^ lastPlace n d)

variable {n d : Nat}

theorem rankOfRatio_eq (n d : Nat) : rankOfRatio n d = lastPlace n d * 2 ^ 52 + roundedSignificand n d := rfl

theorem scaled_lt (hd : 0 < d) : n * unitsInOne < 2 ^ 53 * (d * 2 ^ lastPlace n d) := by
  have hlog : n * unitsInOne / d < 2 ^ (lastPlace n d + 53) :=
    Nat.lt_of_lt_of_le Nat.lt_log2_self (Nat.pow_le_pow_right (by decide) (by rw [lastPlace]; omega))
  rw [Nat.div_lt_iff_lt_mul hd, Nat.pow_add] at hlog
  calc n * unitsInOne < 2 ^ lastPlace n d * 2 ^ 53 * d := hlog
    _ = 2 ^ 53 * (d * 2 ^ lastPlace n d) := by ring

theorem le_scaled (hd : 0 < d) (h : lastPlace n d ≠ 0) : 2 ^ 52 * (d * 2 ^ lastPlace n d) ≤ n * unitsInOne := by
  have hlog : (n * unitsInOne / d).log2 = lastPlace n d + 52 := by rw [lastPlace] at h ⊢; omega
  have hne : n * unitsInOne / d ≠ 0 := by
    intro h0
    rw [h0] at hlog
    simp at hlog
  have hle := Nat.log2_self_le hne
  rw [hlog, Nat.le_div_iff_mul_le hd, Nat.pow_add] at hle
  calc 2 ^ 52 * (d * 2 ^ lastPlace n d) = 2 ^ lastPlace n d * 2 ^ 52 * d := by ring
    _ ≤ n * unitsInOne := hle

theorem place_pos (hd : 0 < d) : 0 < d * 2 ^ lastPlace n d := Nat.mul_pos hd (Nat.two_pow_pos _)

theorem roundedSignificand_le (hd : 0 < d) : roundedSignificand n d ≤ 2 ^ 53 :=
  roundDiv_le (place_pos hd) (scaled_lt hd).le

theorem roundedSignificand_nearest (hd : 0 < d) (n : Nat) :
    2 * (roundedSignificand n d * (d * 2 ^ lastPlace n d)) ≤ 2 * (n * unitsInOne) + d * 2 ^ lastPlace n d ∧
      2 * (n * unitsInOne) ≤ 2 * (roundedSignificand n d * (d * 2 ^ lastPlace n d)) + d * 2 ^ lastPlace n d ∧
      (2 * (n * unitsInOne) = 2 * (roundedSignificand n d * (d * 2 ^ lastPlace n d)) + d * 2 ^ lastPlace n d →
        roundedSignificand n d % 2 = 0) :=
  roundDiv_nearest (place_pos hd) (n * unitsInOne)

theorem le_roundedSignificand (hd : 0 < d) (h : lastPlace n d ≠ 0) : 2 ^ 52 ≤ roundedSignificand n d :=
  le_roundDiv (place_pos hd) (le_scaled hd h)

theorem units_of_place {k q : Nat} (hlow : k ≠ 0 → 2 ^ 52 ≤ q) (hhigh : q ≤ 2 ^ 53) :
    units (k * 2 ^ 52 + q) = q * 2 ^ k := by
  have hpow : Nat.pow 2 52 = 2 ^ 52 := rfl
  rw [units, significand, power, hpow]
  obtain hq | hq | hq : q < 2 ^ 52 ∨ (2 ^ 52 ≤ q ∧ q < 2 ^ 53) ∨ q = 2 ^ 53 := by omega
  · -- below the first power of two there is only the smallest unit
    obtain rfl : k = 0 := by
      by_contra h
      exact absurd (hlow h) (by omega)
    rw [if_pos (by omega), Nat.zero_mul, Nat.zero_add, Nat.div_eq_of_lt hq]
    rfl
  · have hdiv : (k * 2 ^ 52 + q) / 2 ^ 52 - 1 = k := by omega
    have hmod : 2 ^ 52 + (k * 2 ^ 52 + q) % 2 ^ 52 = q := by omega
    rw [if_neg (by omega), hdiv, hmod]
    rfl
  · -- a significand that was rounded up to the next power of two is one place higher
    subst hq
    have hdiv : (k * 2 ^ 52 + 2 ^ 53) / 2 ^ 52 - 1 = k + 1 := by omega
    have hmod : 2 ^ 52 + (k * 2 ^ 52 + 2 ^ 53) % 2 ^ 52 = 2 ^ 52 := by omega
    rw [if_neg (by omega), hdiv, hmod]
    show 2 ^ 52 * 2 ^ (k + 1) = 2 ^ 53 * 2 ^ k
    ring

theorem units_rankOfRatio (hd : 0 < d) :
    units (rankOfRatio n d) = roundedSignificand n d * 2 ^ lastPlace n d := by
  rw [rankOfRatio_eq]
  exact units_of_place (le_roundedSignificand hd) (roundedSignificand_le hd)

/-! ## Whole numbers -/

theorem exists_multiple_of_place {m : Nat} (hd : 0 < d) (hm : m ≤ 2 ^ 53) (h : n ≤ m * d) :
    ∃ k, m * unitsInOne = k * 2 ^ lastPlace n d := by
  obtain hplace | hplace := Nat.lt_or_ge (lastPlace n d) 1075
  · refine ⟨m * 2 ^ (1074 - lastPlace n d), ?_⟩
    rw [unitsInOne_eq, Nat.mul_assoc, ← Nat.pow_add, Nat.sub_add_cancel (by omega)]
  -- so high a place has only the quotient 2⁵³
  have hunits := unitsInOne_pos
  have hpow : 2 ^ 1 * unitsInOne ≤ 2 ^ lastPlace n d := by
    rw [unitsInOne_eq]
    exact two_pow_mul_le (by omega)
  have hscaled : 2 ^ 52 * 2 ^ lastPlace n d ≤ m * unitsInOne := by
    refine Nat.le_of_mul_le_mul_right ?_ hd
    calc 2 ^ 52 * 2 ^ lastPlace n d * d = 2 ^ 52 * (d * 2 ^ lastPlace n d) := by ring
      _ ≤ n * unitsInOne := le_scaled hd (by omega)
      _ ≤ m * d * unitsInOne := Nat.mul_le_mul_right _ h
      _ = m * unitsInOne * d := by ring
  have hbound : m * unitsInOne ≤ 2 ^ 53 * unitsInOne := Nat.mul_le_mul_right _ hm
  exact ⟨2 ^ 52, by omega⟩

theorem units_rankOfRatio_le {m : Nat} (hd : 0 < d) (hm : m ≤ 2 ^ 53) (h : n ≤ m * d) :
    units (rankOfRatio n d) ≤ m * unitsInOne := by
  obtain ⟨k, hk⟩ := exists_multiple_of_place hd hm h
  rw [units_rankOfRatio hd, hk]
  refine Nat.mul_le_mul_right _ (roundDiv_le (place_pos hd) ?_)
  calc n * unitsInOne ≤ m * d * unitsInOne := Nat.mul_le_mul_right _ h
    _ = d * (m * unitsInOne) := by ring
    _ = k * (d * 2 ^ lastPlace n d) := by rw [hk]; ring

theorem lt_units_rankOfRatio {m : Nat} (hd : 0 < d) (hn : n ≤ 2 ^ 53) (hbound : d ≤ unitsInOne) (h : m * d < n) :
    m * unitsInOne < units (rankOfRatio n d) := by
  have hunits := unitsInOne_pos
  obtain ⟨-, hnear, -⟩ := roundedSignificand_nearest hd n
  have hgap : m * d * unitsInOne + unitsInOne ≤ n * unitsInOne := by
    rw [← Nat.succ_mul]
    exact Nat.mul_le_mul_right _ h
  have hscaled : n * unitsInOne ≤ 2 ^ 53 * unitsInOne := Nat.mul_le_mul_right _ hn
  suffices hlt : m * d * unitsInOne < roundedSignificand n d * (d * 2 ^ lastPlace n d) by
    rw [units_rankOfRatio hd]
    refine Nat.lt_of_mul_lt_mul_right (a := d) ?_
    calc m * unitsInOne * d = m * d * unitsInOne := by ring
      _ < roundedSignificand n d * (d * 2 ^ lastPlace n d) := hlt
      _ = roundedSignificand n d * 2 ^ lastPlace n d * d := by ring
  by_cases hplace : lastPlace n d = 0
  · rw [hplace, Nat.pow_zero, Nat.mul_one] at hnear ⊢
    omega
  · -- the last place is worth at most two, and if it is worth two, then the quotient is exact
    have hlow := le_scaled hd hplace
    have hexact := Nat.mul_le_mul_right (d * 2 ^ lastPlace n d) (le_roundedSignificand hd hplace)
    generalize d * 2 ^ lastPlace n d = place at *
    generalize roundedSignificand n d * place = rounded at *
    generalize n * unitsInOne = exact at *
    generalize m * d * unitsInOne = whole at *
    generalize unitsInOne = one at *
    omega

/-- **Rounding does not cross a whole number**: up to 2⁵³, a rounded quotient lies above a whole number exactly if the
quotient itself does. -/
theorem lt_units_rankOfRatio_iff (hd : 0 < d) (hn : n ≤ 2 ^ 53) (hbound : d ≤ unitsInOne) (m : Nat) :
    m * unitsInOne < units (rankOfRatio n d) ↔ m * d < n := by
  refine ⟨fun h => ?_, lt_units_rankOfRatio hd hn hbound⟩
  by_contra hle
  rw [Nat.not_lt] at hle
  obtain hm | hm := Nat.le_total m (2 ^ 53)
  · exact absurd (units_rankOfRatio_le hd hm hle) (Nat.not_le.2 h)
  · have hlarge : n ≤ 2 ^ 53 * d := hn.trans (Nat.le_mul_of_pos_right _ hd)
    have hcap := units_rankOfRatio_le hd (Nat.le_refl _) hlarge
    exact absurd (hcap.trans (Nat.mul_le_mul_right _ hm)) (Nat.not_le.2 h)

/-! ## Overflow -/

@[irreducible] def halfLastPlace : Nat := 2 ^ 970

theorem halfLastPlace_eq : halfLastPlace = 2 ^ 970 := by decide +kernel

theorem halfLastPlace_pos : 0 < halfLastPlace := by decide +kernel

/-- The least whole number that is rounded to an infinity: it lies half a last place above the largest magnitude. -/
def firstInfinite : Nat := (2 ^ 54 - 1) * halfLastPlace

theorem two_pow_cases (a b k : Nat) : (k ≤ a + b ∧ 2 ^ k ≤ 2 ^ a * 2 ^ b) ∨ (k = a + b + 1 ∧ 2 ^ k = 2 * (2 ^ a * 2 ^ b)) ∨
    (a + b + 2 ≤ k ∧ 4 * (2 ^ a * 2 ^ b) ≤ 2 ^ k) := by
  rw [← Nat.pow_add]
  obtain h | rfl | h : k ≤ a + b ∨ k = a + b + 1 ∨ a + b + 2 ≤ k := by omega
  · exact .inl ⟨h, Nat.pow_le_pow_right (by decide) h⟩
  · exact .inr (.inl ⟨rfl, Nat.pow_succ'⟩)
  · refine .inr (.inr ⟨h, ?_⟩)
    have hpow := Nat.pow_le_pow_right (n := 2) (by decide) h
    rw [Nat.pow_succ, Nat.pow_succ] at hpow
    omega

theorem lastPlace_cases (n d : Nat) : (lastPlace n d ≤ 2044 ∧ 2 ^ lastPlace n d ≤ halfLastPlace * unitsInOne) ∨
    (lastPlace n d = 2045 ∧ 2 ^ lastPlace n d = 2 * (halfLastPlace * unitsInOne)) ∨
    (2046 ≤ lastPlace n d ∧ 4 * (halfLastPlace * unitsInOne) ≤ 2 ^ lastPlace n d) := by
  have h := two_pow_cases 970 1074 (lastPlace n d)
  rw [← unitsInOne_eq, ← halfLastPlace_eq] at h
  exact h

/-- **A quotient is rounded to an infinity from `firstInfinite` on.** -/
theorem magnitudeCount_le_rankOfRatio_iff (hd : 0 < d) :
    magnitudeCount ≤ rankOfRatio n d ↔ firstInfinite * d ≤ n := by
  have hcount : magnitudeCount = 2047 * 2 ^ 52 := rfl
  have hunits := unitsInOne_pos
  -- the condition is compared in units
  have hcond : firstInfinite * d ≤ n ↔ (2 ^ 54 - 1) * (d * (halfLastPlace * unitsInOne)) ≤ n * unitsInOne := by
    rw [← Nat.mul_le_mul_right_iff hunits, firstInfinite, Nat.mul_assoc (2 ^ 54 - 1), Nat.mul_assoc (2 ^ 54 - 1),
      Nat.mul_comm halfLastPlace d, Nat.mul_assoc d]
  have hhalf : 0 < halfLastPlace * unitsInOne := Nat.mul_pos halfLastPlace_pos hunits
  have hpos : 0 < d * (halfLastPlace * unitsInOne) := Nat.mul_pos hd hhalf
  obtain ⟨hnear, hnear', htie⟩ := roundedSignificand_nearest hd n
  have hhigh := scaled_lt (n := n) hd
  have hmost := roundedSignificand_le (n := n) hd
  rw [hcount, rankOfRatio_eq, hcond]
  obtain ⟨hplace, hpow⟩ | ⟨hplace, hpow⟩ | ⟨hplace, hpow⟩ := lastPlace_cases n d
  · have hle := Nat.mul_le_mul_left d hpow
    generalize d * 2 ^ lastPlace n d = place at *
    generalize d * (halfLastPlace * unitsInOne) = half at *
    omega
  · have heq : d * 2 ^ lastPlace n d = 2 * (d * (halfLastPlace * unitsInOne)) := by rw [hpow, Nat.mul_left_comm]
    rw [heq] at hnear hnear' htie
    generalize d * (halfLastPlace * unitsInOne) = half at *
    generalize n * unitsInOne = exact at *
    generalize roundedSignificand n d = q at *
    constructor
    · intro h
      obtain rfl : q = 2 ^ 53 := by omega
      omega
    · intro h
      by_contra hlt
      -- half a place below the next power of two is a tie, and the significand below it is odd
      have hq : q ≤ 2 ^ 53 - 1 := by omega
      have hle := Nat.mul_le_mul_right (2 * half) hq
      have hexact : q * (2 * half) = (2 ^ 53 - 1) * (2 * half) := by omega
      obtain rfl : q = 2 ^ 53 - 1 := Nat.eq_of_mul_eq_mul_right (by omega) hexact
      exact absurd (htie (by omega)) (by decide)
  · have hle := Nat.mul_le_mul_left d hpow
    have hleast := le_roundedSignificand (n := n) hd (by omega)
    have hlow := le_scaled (n := n) hd (by omega)
    rw [Nat.mul_left_comm] at hle
    generalize d * 2 ^ lastPlace n d = place at *
    generalize d * (halfLastPlace * unitsInOne) = half at *
    generalize n * unitsInOne = exact at *
    omega

end ListQuery.Binary64
