import Mathlib.Algebra.Order.Field.Rat
import Mathlib.Data.Prod.Lex
import Mathlib.Data.String.Basic
import ListQuery.Fault
/-!
# Close matches

Similarities are compared by multiplying out, a close match is found among scored texts, and only the first three are kept.
As fractions they are in a linear order, and so are pairs of a similarity and a text; the close matches are then those
close candidates that fewer than three others stand above.  Main statements: `closeMatches_eq` and `mem_closeMatches_iff`.
-/
namespace ListQuery

/-! ## The head of a descending list -/

/-- In a list that descends, the first few are those with few elements before them. -/
theorem mem_take_iff_countP_lt {α : Type} {r : α → α → Prop} [DecidableRel r] [Std.Asymm r] {x : α} :
    ∀ {xs : List α} (count : Nat), xs.Pairwise r →
      (x ∈ xs.take count ↔ x ∈ xs ∧ xs.countP (fun y => r y x) < count)
  | _, 0, _ => by simp
  | [], _ + 1, _ => by simp
  | y :: ys, count + 1, h => by
    rw [List.pairwise_cons] at h
    have ih := mem_take_iff_countP_lt (x := x) count h.2
    rw [List.take_succ_cons, List.mem_cons, List.mem_cons, List.countP_cons, ih]
    by_cases hxy : x = y
    · subst hxy
      -- nothing that comes after an element is before it
      have hnone : ys.countP (fun y => r y x) = 0 := by
        rw [List.countP_eq_zero]
        intro z hz hzx
        exact Std.Asymm.asymm _ _ (h.1 z hz) (of_decide_eq_true hzx)
      have hself : ¬r x x := fun hx => Std.Asymm.asymm _ _ hx hx
      simp [hnone, hself]
    · by_cases hx : x ∈ ys
      · simp [hxy, hx, h.1 x hx]
      · simp [hxy, hx]

namespace Similarity

/-! ## Similarities as fractions -/

def Score.value (s : Score) : ℚ := s.above / s.below

theorem Score.le_iff {s t : Score} (hs : 0 < s.below) (ht : 0 < t.below) : s.le t = true ↔ s.value ≤ t.value := by
  have hs' : (0 : ℚ) < s.below := Nat.cast_pos.2 hs
  have ht' : (0 : ℚ) < t.below := Nat.cast_pos.2 ht
  rw [le, decide_eq_true_iff, value, value, div_le_div_iff₀ hs' ht']
  norm_cast

theorem score_below_pos (common word candidate : List Char) : 0 < (score common word candidate).below := by
  dsimp only [score]
  split
  · exact Nat.one_pos
  · rename_i hlength
    exact Nat.pos_of_ne_zero hlength

def similarity (word candidate : String) : ℚ := (score (commonChars word.toList) word.toList candidate.toList).value

/-- What candidates for a word are ordered by: their similarity to it, and then their characters. -/
def standing (word candidate : String) : ℚ ×ₗ String := toLex (similarity word candidate, candidate)

theorem standing_injective (word : String) : Function.Injective (standing word) :=
  fun _ _ h => congrArg Prod.snd (toLex.injective h)

def scored (word candidate : String) : Score × String :=
  (score (commonChars word.toList) word.toList candidate.toList, candidate)

theorem le_scored_iff {word c d : String} :
    (scored word c).1.le (scored word d).1 = true ↔ similarity word c ≤ similarity word d :=
  Score.le_iff (score_below_pos _ _ _) (score_below_pos _ _ _)

theorem threshold_le_iff {word c : String} :
    threshold.le (scored word c).1 = true ↔ 3 / 5 ≤ similarity word c := by
  have h : threshold.value = 3 / 5 := by simp [Score.value, threshold]
  rw [← h]
  exact Score.le_iff (by decide) (score_below_pos _ _ _)

theorem goesBefore_scored (word c d : String) :
    goesBefore (scored word c) (scored word d) = decide (standing word d ≤ standing word c) := by
  rw [Bool.eq_iff_iff, decide_eq_true_iff, standing, standing, Prod.Lex.toLex_le_toLex, goesBefore]
  simp only [Bool.and_eq_true, le_scored_iff, ← le_antisymm_iff]
  by_cases h : similarity word c = similarity word d
  · simp only [h, lt_irrefl, if_true, true_and, false_or]
    exact decide_eq_true_iff
  · rw [if_neg h, le_scored_iff]
    simp [Ne.symm h, le_iff_lt_or_eq]

/-! ## The matches of a word -/

def close (word : String) (candidates : List String) : List String :=
  candidates.filter fun c => 3 / 5 ≤ similarity word c

/-- **Close matches are sorted by their standing**, and the first three are kept. -/
theorem closeMatches_eq (word : String) (candidates : List String) : closeMatches word candidates =
    ((close word candidates).mergeSort fun c d => standing word d ≤ standing word c).take 3 := by
  have hclose : (fun p => threshold.le p.1) ∘ scored word = fun c => decide (3 / 5 ≤ similarity word c) := by
    funext c
    rw [Bool.eq_iff_iff, decide_eq_true_iff]
    exact threshold_le_iff
  have hsorted : ((close word candidates).map (scored word)).mergeSort goesBefore =
      ((close word candidates).mergeSort fun c d => standing word d ≤ standing word c).map (scored word) :=
    (List.map_mergeSort fun c _ d _ => (goesBefore_scored word c d).symm).symm
  have hmatches : closeMatches word candidates =
      ((((candidates.map (scored word)).filter fun p => threshold.le p.1).mergeSort goesBefore).take 3).map Prod.snd := rfl
  have hsnd : Prod.snd ∘ scored word = id := rfl
  rw [hmatches, List.filter_map, hclose, ← close, hsorted, ← List.map_take, List.map_map, hsnd, List.map_id]

/-- **A candidate is suggested for a word** if it is close to it and fewer than three close ones stand above it. -/
structure Suggests (word : String) (candidates : List String) (c : String) : Prop where
  mem : c ∈ candidates
  close : 3 / 5 ≤ similarity word c
  rank : (Similarity.close word candidates).countP (fun d => standing word c < standing word d) < 3

variable {word : String} {candidates : List String}

theorem mem_close_iff {c : String} : c ∈ close word candidates ↔ c ∈ candidates ∧ 3 / 5 ≤ similarity word c := by
  rw [close, List.mem_filter, decide_eq_true_iff]

section

variable (h : candidates.Nodup)

include h

theorem pairwise_sorted : ((close word candidates).mergeSort fun c d => standing word d ≤ standing word c).Pairwise
    fun c d => standing word d < standing word c := by
  have hsorted := @List.pairwise_mergeSort _ (fun c d => decide (standing word d ≤ standing word c))
    (fun a b c hab hbc => by
      rw [decide_eq_true_iff] at *
      exact hbc.trans hab)
    (fun a b => by simpa using le_total _ _) (close word candidates)
  have hnodup := (List.mergeSort_perm (close word candidates) fun c d => standing word d ≤ standing word c).nodup_iff.2
    (h.filter _)
  refine (hsorted.and hnodup).imp fun hcd => ?_
  exact lt_of_le_of_ne (of_decide_eq_true hcd.1) fun he => hcd.2 (standing_injective word he).symm

theorem pairwise_closeMatches :
    (closeMatches word candidates).Pairwise fun c d => standing word d < standing word c := by
  rw [closeMatches_eq]
  exact (pairwise_sorted h).sublist (List.take_sublist _ _)

theorem nodup_closeMatches : (closeMatches word candidates).Nodup :=
  (pairwise_closeMatches h).imp fun {c d} hcd (he : c = d) => absurd hcd (he ▸ lt_irrefl _)

theorem mem_closeMatches_iff {c : String} : c ∈ closeMatches word candidates ↔ Suggests word candidates c := by
  have : Std.Asymm fun c d : String => standing word d < standing word c := ⟨fun _ _ => lt_asymm⟩
  have hperm := List.mergeSort_perm (close word candidates) fun c d => standing word d ≤ standing word c
  rw [closeMatches_eq, mem_take_iff_countP_lt 3 (pairwise_sorted h), hperm.mem_iff, hperm.countP_eq, mem_close_iff]
  exact ⟨fun ⟨⟨hmem, hclose⟩, hrank⟩ => ⟨hmem, hclose, hrank⟩, fun hs => ⟨⟨hs.mem, hs.close⟩, hs.rank⟩⟩

end

theorem suggests_iff_of_few (h : candidates.length ≤ 3) {c : String} :
    Suggests word candidates c ↔ c ∈ candidates ∧ 3 / 5 ≤ similarity word c := by
  refine ⟨fun hs => ⟨hs.mem, hs.close⟩, fun hc => ⟨hc.1, hc.2, ?_⟩⟩
  -- the candidate does not stand above itself
  have hself : (close word candidates).countP (fun d => standing word c < standing word d) <
      (close word candidates).length :=
    lt_of_le_of_ne List.countP_le_length fun hall => by simpa using List.countP_eq_length.1 hall c (mem_close_iff.2 hc)
  have hlength : (close word candidates).length ≤ candidates.length := List.length_filter_le _ _
  omega

theorem suggests_of_perm {others : List String} (h : candidates.Perm others) {c : String} :
    Suggests word candidates c ↔ Suggests word others c := by
  have hclose : (close word candidates).Perm (close word others) := h.filter _
  constructor
  · exact fun hs => ⟨h.mem_iff.1 hs.mem, hs.close, hclose.countP_eq _ ▸ hs.rank⟩
  · exact fun hs => ⟨h.mem_iff.2 hs.mem, hs.close, hclose.countP_eq _ ▸ hs.rank⟩

end Similarity

theorem sortTexts_perm (texts : List String) : (sortTexts texts).Perm texts := List.mergeSort_perm _ _

end ListQuery
