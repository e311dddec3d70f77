import ListQuery.Proofs.NearestQuotient
/-!
# Decimals far out of range

A decimal that is too large or too small for a finite magnitude other than zero is rounded without being written out.
The numeral of its digits tells how large it is, so the number is the one that the quotient itself is rounded to
(`ofDecimal_eq`).
-/
namespace ListQuery.Binary64

def nearestDecimal (negative : Bool) (digits : Nat) (exponent : Int) : Binary64 :=
  ofRatio negative (digits * 10 ^ exponent.toNat) (10 ^ (-exponent).toNat)

theorem lt_pow_length_decimal (n : Nat) : n < 10 ^ (decimal n).length :=
  (Nat.length_toDigits_le_iff (by decide) Nat.length_toDigits_pos).1 (Nat.le_refl _)

theorem pow_length_decimal_le {n : Nat} (h : n ≠ 0) : 10 ^ ((decimal n).length - 1) ≤ n := by
  by_cases hone : (decimal n).length - 1 = 0
  · rw [hone]
    exact Nat.one_le_iff_ne_zero.2 h
  · by_contra hlt
    have hle := (Nat.length_toDigits_le_iff (by decide) (Nat.pos_of_ne_zero hone)).2 (Nat.lt_of_not_le hlt)
    change (decimal n).length ≤ (decimal n).length - 1 at hle
    omega

variable {n d : Nat}

theorem rankOfRatio_eq_zero (h : 2 * (n * unitsInOne) < d) : rankOfRatio n d = 0 := by
  have hplace : lastPlace n d = 0 := by
    rw [lastPlace, Nat.div_eq_of_lt (by omega)]
    rfl
  have hround : roundDiv (n * unitsInOne) d = 0 := by
    rw [roundDiv, Nat.div_eq_of_lt (by omega), Nat.mod_eq_of_lt (by omega)]
    exact if_pos h
  rw [rankOfRatio_eq, roundedSignificand, hplace, Nat.pow_zero, Nat.mul_one, hround, Nat.zero_mul]

theorem ofRatio_of_tiny (negative : Bool) (h : 2 * (n * unitsInOne) < d) : ofRatio negative n d = ofRank negative 0 := by
  rw [ofRatio, rankOfRatio_eq_zero h]

theorem ofRatio_of_huge (negative : Bool) (hd : 0 < d) (h : firstInfinite * d ≤ n) :
    ofRatio negative n d = infinite negative := by
  rw [ofRatio, ofRank, dif_neg (Nat.not_lt.2 ((magnitudeCount_le_rankOfRatio_iff hd).2 h))]

theorem two_mul_unitsInOne_le : 2 * unitsInOne ≤ 10 ^ 330 := by decide +kernel

theorem firstInfinite_le : firstInfinite ≤ 10 ^ 310 := by decide +kernel

variable {digits : Nat} {exponent : Int}

theorem nearestDecimal_of_low (negative : Bool) (h : (decimal digits).length + exponent < -330) :
    nearestDecimal negative digits exponent = ofRank negative 0 := by
  refine ofRatio_of_tiny negative ?_
  have hzero : exponent.toNat = 0 := by omega
  have hpow : (decimal digits).length + 330 ≤ (-exponent).toNat := by omega
  rw [hzero, Nat.pow_zero, Nat.mul_one]
  calc 2 * (digits * unitsInOne) = digits * (2 * unitsInOne) := Nat.mul_left_comm ..
    _ < 10 ^ (decimal digits).length * 10 ^ 330 :=
      Nat.mul_lt_mul_of_lt_of_le' (lt_pow_length_decimal digits) two_mul_unitsInOne_le
        (Nat.mul_pos (by decide) unitsInOne_pos)
    _ = 10 ^ ((decimal digits).length + 330) := by rw [Nat.pow_add]
    _ ≤ 10 ^ (-exponent).toNat := Nat.pow_le_pow_right (by decide) hpow

theorem nearestDecimal_of_high (negative : Bool) (hdigits : digits ≠ 0) (h : 310 < (decimal digits).length + exponent) :
    nearestDecimal negative digits exponent = infinite negative := by
  refine ofRatio_of_huge negative (Nat.pow_pos (by decide)) ?_
  have hlength : 0 < (decimal digits).length := Nat.length_toDigits_pos
  have hpow : 310 + (-exponent).toNat ≤ (decimal digits).length - 1 + exponent.toNat := by omega
  calc firstInfinite * 10 ^ (-exponent).toNat ≤ 10 ^ 310 * 10 ^ (-exponent).toNat :=
      Nat.mul_le_mul_right _ firstInfinite_le
    _ = 10 ^ (310 + (-exponent).toNat) := by rw [Nat.pow_add]
    _ ≤ 10 ^ ((decimal digits).length - 1 + exponent.toNat) := Nat.pow_le_pow_right (by decide) hpow
    _ = 10 ^ ((decimal digits).length - 1) * 10 ^ exponent.toNat := Nat.pow_add ..
    _ ≤ digits * 10 ^ exponent.toNat := Nat.mul_le_mul_right _ (pow_length_decimal_le hdigits)

/-- **A decimal is rounded as the quotient that it is**, whatever its size. -/
theorem ofDecimal_eq (negative : Bool) (digits : Nat) (exponent : Int) :
    ofDecimal negative digits exponent = nearestDecimal negative digits exponent := by
  unfold ofDecimal
  dsimp only
  split
  · rename_i h
    rcases h with rfl | hlow
    · have htiny : 2 * (0 * unitsInOne) < 10 ^ (-exponent).toNat := by
        rw [Nat.zero_mul]
        exact Nat.pow_pos (by decide)
      rw [nearestDecimal, Nat.zero_mul, ofRatio_of_tiny negative htiny]
    · exact (nearestDecimal_of_low negative hlow).symm
  · rename_i h
    split
    · rename_i hhigh
      exact (nearestDecimal_of_high negative (fun hzero => h (.inl hzero)) hhigh).symm
    · split
      · rename_i hexponent
        rw [nearestDecimal, Int.toNat_of_nonpos (Int.le_of_lt hexponent), Nat.pow_zero, Nat.mul_one]
        rfl
      · rename_i hexponent
        have hzero : (-exponent).toNat = 0 := by omega
        rw [nearestDecimal, hzero, Nat.pow_zero]
        rfl

end ListQuery.Binary64
