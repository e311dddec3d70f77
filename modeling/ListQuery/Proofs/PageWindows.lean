import Mathlib
import ListQuery.Proofs.NearestQuotient
import ListQuery.Proofs.SoundParameters
import ListQuery.Rows.PageWindow
/-!
# Page windows and the pages of a request

The rows that a page skips are counted with integers and the pages with a rounded quotient.  Both agree as long as the
rounding keeps whole numbers apart, which it does for totals up to 2⁵³ (`exists_pageCount`).  Main statements:
`make_outcome` (when there is a window at all, and what its count of pages is), `make_loses_row` (just beyond 2⁵³ a row is
lost) and `make_tells` (the page window and the windows that requests compile to tell the same pages).
-/
namespace ListQuery

namespace Binary64

def leastAbove (u : Nat) : Int := -(-(u : Int) / unitsInOne)

theorem leastAbove_le_iff (u : Nat) (m : Int) : leastAbove u ≤ m ↔ (u : Int) ≤ m * unitsInOne := by
  have hunits : (0 : Int) < unitsInOne := Int.natCast_pos.2 unitsInOne_pos
  have hneg : -m * (unitsInOne : Int) = -(m * unitsInOne) := Int.neg_mul m unitsInOne
  rw [leastAbove]
  calc -(-(u : Int) / unitsInOne) ≤ m ↔ -m ≤ -(u : Int) / unitsInOne := by omega
    _ ↔ -m * unitsInOne ≤ -(u : Int) := Int.le_ediv_iff_mul_le hunits
    _ ↔ (u : Int) ≤ m * unitsInOne := by rw [hneg]; omega

end Binary64

namespace PageWindow

open Binary64

/-! ## The count of pages -/

theorem ceiling_finite (rank : Fin magnitudeCount) : ceiling (.finite false rank) = .ok (leastAbove (units rank)) := by
  simp only [ceiling, ceiling?, signedUnits?, Bool.false_eq_true, if_false, Option.map_some, Option.getD_some, leastAbove]

theorem quotient_natCast (total limit : Nat) :
    quotient (.int total) (.int limit) = inRange (ofRank false (rankOfRatio total limit)) := by
  have hsign : ∀ n : Nat, decide ((n : Int) < 0) = false := fun n => by simp
  have hquotient : quotient (.int total) (.int limit) =
      inRange (ofRatio (decide ((total : Int) < 0) != decide ((limit : Int) < 0))
        (total : Int).natAbs (limit : Int).natAbs) := rfl
  rw [hquotient, hsign, hsign, Int.natAbs_natCast, Int.natAbs_natCast, bne_self_eq_false, ofRatio]

/-- **The count of pages is the rounded quotient, rounded up.**  A quotient that is rounded to an infinity gives none. -/
theorem pageCount_natCast (total : Nat) {limit : Nat} (hlimit : 0 < limit) : pageCount (.int total) (.int limit) =
    if firstInfinite * limit ≤ total then .error .tooLarge else .ok (leastAbove (units (rankOfRatio total limit))) := by
  have htruthy : (Value.int limit).isTruthy = true := by simp [Value.isTruthy]; omega
  have hiff := magnitudeCount_le_rankOfRatio_iff (n := total) hlimit
  rw [pageCount, if_pos htruthy, quotient_natCast, ofRank]
  by_cases h : rankOfRatio total limit < magnitudeCount
  · rw [dif_pos h, if_neg (hiff.not.1 (Nat.not_le.2 h))]
    exact ceiling_finite ⟨_, h⟩
  · rw [dif_neg h, if_pos (hiff.1 (Nat.not_lt.1 h))]
    rfl

theorem lt_firstInfinite : 2 ^ 53 < firstInfinite := by decide +kernel

theorem exists_pageCount {total limit : Int} (htotal : 0 ≤ total) (hexact : total ≤ 2 ^ 53) (hlimit : 1 ≤ limit)
    (hbound : limit ≤ unitsInOne) :
    ∃ pages, pageCount (.int total) (.int limit) = .ok pages ∧ ∀ m, pages ≤ m ↔ total ≤ m * limit := by
  obtain ⟨n, rfl⟩ := Int.eq_ofNat_of_zero_le htotal
  obtain ⟨d, rfl⟩ := Int.eq_ofNat_of_zero_le (show 0 ≤ limit by omega)
  have hd : 0 < d := Int.natCast_pos.1 hlimit
  have hn : n ≤ 2 ^ 53 := by exact_mod_cast hexact
  have hfinite : ¬firstInfinite * d ≤ n :=
    Nat.not_le.2 (Nat.lt_of_le_of_lt hn (Nat.lt_of_lt_of_le lt_firstInfinite (Nat.le_mul_of_pos_right _ hd)))
  refine ⟨_, by rw [pageCount_natCast n hd, if_neg hfinite], fun m => ?_⟩
  rw [leastAbove_le_iff]
  obtain hm | hm := Int.lt_or_le m 0
  · -- fewer than no pages have no room for anything
    have hunits : m * (unitsInOne : Int) < 0 := Int.mul_neg_of_neg_of_pos hm (Int.natCast_pos.2 unitsInOne_pos)
    have hrows : m * (d : Int) < 0 := Int.mul_neg_of_neg_of_pos hm (Int.natCast_pos.2 hd)
    omega
  · obtain ⟨k, rfl⟩ := Int.eq_ofNat_of_zero_le hm
    have hiff := not_congr (lt_units_rankOfRatio_iff hd hn (Int.ofNat_le.1 hbound) k)
    rw [Nat.not_lt, Nat.not_lt] at hiff
    exact_mod_cast hiff

/-! ## Windows -/

theorem isLess_compare (m n : Int) : (some (compare m n) == some Ordering.lt) = decide (m < n) := by
  have h := compare_lt_iff_lt (a := m) (b := n)
  cases hc : compare m n <;> simp_all

theorem isMore_compare (m n : Int) : (some (compare m n) == some Ordering.gt) = decide (n < m) := by
  have h := compare_gt_iff_gt (a := m) (b := n)
  cases hc : compare m n <;> simp_all

theorem make_of_pageCount {total limit pages : Int} (h : pageCount (.int total) (.int limit) = .ok pages) (page : Int) :
    make (.int total) (.int page) (.int limit) =
      .ok ⟨total, page, limit, pages, decide (page < pages), decide (1 < page)⟩ := by
  rw [make, h, ← isLess_compare, ← isMore_compare]
  rfl

theorem make_of_pageCount_eq_error {total limit : Int} {fault : Fault}
    (h : pageCount (.int total) (.int limit) = .error fault) (page : Int) :
    make (.int total) (.int page) (.int limit) = .error fault := by
  rw [make, h]
  rfl

/-- **How many pages there are, and whether there is a next one.**  Only a quotient that is rounded to an infinity gives no
window.  The count of pages is a rounded quotient, so it is the least that has room for all rows as long as rounding keeps
whole numbers apart. -/
theorem make_outcome (total : Nat) {limit : Nat} (hlimit : 0 < limit) (page : Int) :
    if firstInfinite * limit ≤ total then make (.int total) (.int page) (.int limit) = .error .tooLarge
    else ∃ w, make (.int total) (.int page) (.int limit) = .ok w ∧
      w.totalPages = leastAbove (units (rankOfRatio total limit)) ∧ (w.hasNext = true ↔ page < w.totalPages) ∧
      (total ≤ 2 ^ 53 → limit ≤ unitsInOne →
        IsLeast {n : Int | total ≤ n * limit} w.totalPages ∧ (w.hasNext = true ↔ page * limit < total)) := by
  have hcount := pageCount_natCast total hlimit
  by_cases hlarge : firstInfinite * limit ≤ total
  · rw [if_pos hlarge] at hcount ⊢
    exact make_of_pageCount_eq_error hcount page
  · rw [if_neg hlarge] at hcount ⊢
    refine ⟨_, make_of_pageCount hcount page, rfl, decide_eq_true_iff, fun hexact hbound => ?_⟩
    obtain ⟨pages, hpages, hle⟩ := exists_pageCount (Int.natCast_nonneg total) (by exact_mod_cast hexact)
      (Int.natCast_pos.2 hlimit) (Int.ofNat_le.2 hbound)
    obtain rfl := Except.ok.inj (hcount.symm.trans hpages)
    refine ⟨⟨(hle _).1 (Int.le_refl _), fun m hm => (hle m).2 hm⟩, ?_⟩
    rw [decide_eq_true_iff, ← Int.not_le, hle, Int.not_le]

/-- At the last total that is exact, a third page of rows more than fits is still counted. -/
theorem make_outcome_thirds :
    0 < 3 ∧ ∃ w, make (.int (2 ^ 53 : Nat)) (.int 3002399751580330) (.int (3 : Nat)) = .ok w ∧
      IsLeast {n : Int | (2 ^ 53 : Nat) ≤ n * (3 : Nat)} w.totalPages ∧ w.hasNext = true := by
  have hsmall : ¬firstInfinite * 3 ≤ 2 ^ 53 := by decide +kernel
  have h := make_outcome (2 ^ 53) (show 0 < 3 by decide) 3002399751580330
  rw [if_neg hsmall] at h
  obtain ⟨w, hw, -, -, hexact⟩ := h
  obtain ⟨hleast, hnext⟩ := hexact (by decide) (by decide +kernel)
  exact ⟨by decide, w, hw, hleast, hnext.2 (by decide)⟩

/-- **One row more than 2⁵³ is lost**: with one row on each page, the last one is on none. -/
theorem make_loses_row :
    ∃ w, make (.int (2 ^ 53 + 1 : Nat)) (.int 1) (.int (1 : Nat)) = .ok w ∧
      ¬((2 ^ 53 + 1 : Nat) : Int) ≤ w.totalPages * 1 := by
  have hsmall : ¬firstInfinite * 1 ≤ 2 ^ 53 + 1 := by decide +kernel
  have hcount := pageCount_natCast (2 ^ 53 + 1) Nat.one_pos
  rw [if_neg hsmall] at hcount
  exact ⟨_, make_of_pageCount hcount 1, by decide +kernel⟩

end PageWindow

/-! ## Pages of a request -/

namespace Parameters

def atPage (p : Parameters) (page : Int) : Parameters := { p with page := page }

/-- The places of the rows on a page: as many as the limit, behind those that are skipped. -/
def window (p : Parameters) : Set Int := Set.Ico p.skip (p.skip + p.limit)

theorem skip_add_limit (p : Parameters) : p.skip + p.limit = p.page * p.limit := by
  rw [skip, Int.sub_mul, Int.one_mul, Int.sub_add_cancel]

theorem mem_window_atPage {p : Parameters} {page i : Int} :
    i ∈ (p.atPage page).window ↔ (page - 1) * p.limit ≤ i ∧ i < page * p.limit := by
  rw [window, skip_add_limit]
  rfl

end Parameters

namespace PageWindow

/-- **A page window tells the pages of a request**: up to the count of pages each row is on exactly one page and no page is
empty, beyond it every page is, and the flags say whether rows stand behind the page and before it. -/
structure Tells (p : Parameters) (total : Int) (w : PageWindow) : Prop where
  one_page : ∀ i, 0 ≤ i → i < total → ∃! page, (1 ≤ page ∧ page ≤ w.totalPages) ∧ i ∈ (p.atPage page).window
  some_row : ∀ page, 1 ≤ page → page ≤ w.totalPages → ∃ i, (0 ≤ i ∧ i < total) ∧ i ∈ (p.atPage page).window
  no_row : ∀ page, w.totalPages < page → ∀ i, 0 ≤ i → i < total → i ∉ (p.atPage page).window
  hasNext_iff : w.hasNext = true ↔ ∃ i, (0 ≤ i ∧ i < total) ∧ p.skip + p.limit ≤ i
  hasPrevious_iff : w.hasPrevious = true ↔ 0 < p.skip

theorem tells_of_pages {p : Parameters} {total pages : Int} (hpage : 1 ≤ p.page) (hlimit : 0 < p.limit)
    (hle : ∀ m, pages ≤ m ↔ total ≤ m * p.limit) :
    Tells p total ⟨total, p.page, p.limit, pages, decide (p.page < pages), decide (1 < p.page)⟩ := by
  constructor
  case one_page =>
    intro i hi hlt
    have hfirst : i / p.limit * p.limit ≤ i := Int.ediv_mul_le i (Int.ne_of_gt hlimit)
    have hnext : i < (i / p.limit + 1) * p.limit := Int.lt_ediv_add_one_mul_self i hlimit
    have hnonneg : 0 ≤ i / p.limit := Int.ediv_nonneg hi (Int.le_of_lt hlimit)
    have hroom : ¬pages ≤ i / p.limit := by
      rw [hle]
      omega
    refine ⟨i / p.limit + 1, ⟨⟨by omega, by show _ ≤ pages; omega⟩, ?_⟩, ?_⟩
    · rw [Parameters.mem_window_atPage, Int.add_sub_cancel]
      exact ⟨hfirst, hnext⟩
    · rintro page ⟨-, hpage⟩
      rw [Parameters.mem_window_atPage, ← Int.le_ediv_iff_mul_le hlimit, ← Int.ediv_lt_iff_lt_mul hlimit] at hpage
      omega
  case some_row =>
    intro page hpage hpages
    have hroom : ¬pages ≤ page - 1 := by
      dsimp only at hpages
      omega
    rw [hle] at hroom
    refine ⟨(page - 1) * p.limit, ⟨Int.mul_nonneg (by omega) (by omega), by omega⟩, ?_⟩
    rw [Parameters.mem_window_atPage]
    exact ⟨Int.le_refl _, Int.mul_lt_mul_of_pos_right (by omega) hlimit⟩
  case no_row =>
    intro page hpage i hi hlt hmem
    have hroom : pages ≤ page - 1 := by
      dsimp only at hpage
      omega
    rw [hle] at hroom
    rw [Parameters.mem_window_atPage] at hmem
    omega
  case hasNext_iff =>
    rw [decide_eq_true_iff, ← Int.not_le, hle, Int.not_le, p.skip_add_limit]
    have hnonneg : 0 ≤ p.page * p.limit := Int.mul_nonneg (by omega) (by omega)
    exact ⟨fun h => ⟨_, ⟨hnonneg, h⟩, Int.le_refl _⟩, fun ⟨i, ⟨_, hi⟩, hp⟩ => Int.lt_of_le_of_lt hp hi⟩
  case hasPrevious_iff =>
    rw [decide_eq_true_iff, Parameters.skip, mul_pos_iff_of_pos_right hlimit]
    omega

/-- **The page window agrees with the windows that requests compile to.** -/
theorem make_tells {maxLimit : Value} {given : List (String × Value)} {p : Parameters}
    (accepted : Parameters.check maxLimit given = .ok (.valid p)) (hlimit : p.limit ≤ 2 ^ 53) {total : Int}
    (htotal : 0 ≤ total) (hexact : total ≤ 2 ^ 53) :
    (∃ w, make (.int total) (.int p.page) (.int p.limit) = .ok w ∧ Tells p total w) ∧
      ∀ (e : Endpoint) (model : String) (searchFields : List String) (page : Int) (d : Descriptor),
        e.compile model (p.atPage page) searchFields = .ok d →
          ∃ skip take : Int, d.skip = .int skip ∧ d.take = .int take ∧
            (p.atPage page).window = Set.Ico skip (skip + take) := by
  have haccepted := Parameters.check_eq_valid_iff.1 accepted
  have hpositive := haccepted.one_le_limit
  have hbound : (2 ^ 53 : Int) ≤ Binary64.unitsInOne := by decide +kernel
  obtain ⟨pages, hpages, hle⟩ := exists_pageCount htotal hexact hpositive (hlimit.trans hbound)
  refine ⟨⟨_, make_of_pageCount hpages p.page, ?_⟩, fun e model searchFields page d hd => ?_⟩
  · exact tells_of_pages haccepted.one_le_page hpositive hle
  · obtain ⟨hskip, htake⟩ := Endpoint.window_of_compile hd
    exact ⟨_, _, hskip, htake, rfl⟩

/-- The fourth page of this request has one row, and the third is not the last. -/
theorem make_tells_shelf :
    Parameters.check Endpoint.shelfSettings.maxLimit (Parameters.withDefaults Endpoint.shelfSettings Endpoint.shelfRequest) =
        .ok (.valid Endpoint.shelfParameters) ∧ Endpoint.shelfParameters.limit ≤ 2 ^ 53 ∧ (0 : Int) ≤ 61 ∧
      (61 : Int) ≤ 2 ^ 53 ∧
      ∃ w, make (.int 61) (.int 3) (.int 20) = .ok w ∧ Tells Endpoint.shelfParameters 61 w ∧ w.hasNext = true := by
  have accepted := Parameters.check_eq_valid_iff.2 (Parameters.ofRequest_eq_ok_iff.1 Endpoint.ofRequest_shelfRequest)
  have hlimit : Endpoint.shelfParameters.limit ≤ 2 ^ 53 := by decide
  obtain ⟨⟨w, hw, htells⟩, -⟩ := make_tells accepted hlimit (show (0 : Int) ≤ 61 by decide) (by decide)
  exact ⟨accepted, hlimit, by decide, by decide, w, hw, htells, htells.hasNext_iff.2 ⟨60, by decide, by decide⟩⟩

end PageWindow
end ListQuery
