import EntityStore.Binary64
import Mathlib.Algebra.Order.Ring.Int
import Mathlib.Data.Nat.Log
import Mathlib.Tactic.Lemma
import Mathlib.Tactic.NormNum

/-!
Integers among the doubles. To go from an integer to the nearest double keeps the order of
integers, but not that they differ: far from zero several integers have one nearest double. An
integer below `2 ^ 53` is told apart from all others.

The bits of the nearest double are the exponent above the significand. So the greater exponent
decides, even where the lesser number is rounded up to the next power of two, and for one exponent
the significands do, which are the same highest bits rounded by the same rule.
-/

namespace EntityStore.Binary64

variable {m n : Nat}

/-! ### Quotients to the nearest -/

/-- The quotient rounded to the nearest number, a half to the even one. -/
def nearestQuotient (n q : Nat) : Nat :=
  if q < 2 * (n % q) ∨ 2 * (n % q) = q ∧ n / q % 2 = 1 then n / q + 1 else n / q

lemma le_nearestQuotient (n q : Nat) : n / q ≤ nearestQuotient n q := by
  unfold nearestQuotient
  split <;> omega

lemma nearestQuotient_le (n q : Nat) : nearestQuotient n q ≤ n / q + 1 := by
  unfold nearestQuotient
  split <;> omega

lemma nearestQuotient_mono (h : m ≤ n) (q : Nat) : nearestQuotient m q ≤ nearestQuotient n q := by
  rcases (Nat.div_le_div_right h : m / q ≤ n / q).lt_or_eq with hlt | heq
  · calc
      nearestQuotient m q ≤ m / q + 1 := nearestQuotient_le m q
      _ ≤ n / q := hlt
      _ ≤ nearestQuotient n q := le_nearestQuotient n q
  · -- Of one quotient, the greater remainder is rounded up if the lesser one is.
    have hm := Nat.div_add_mod m q
    have hn := Nat.div_add_mod n q
    rw [heq] at hm
    have hrest : m % q ≤ n % q := by omega
    unfold nearestQuotient
    rw [heq]
    split <;> split <;> omega

/-! ### Significands -/

/-- The highest bits of a number, as many as a double has room for; rounding up may carry into one
more. -/
def significand (n : Nat) : Nat :=
  if n < 2 ^ 53 then n * 2 ^ (52 - n.log2) else nearestQuotient n (2 ^ (n.log2 - 52))

lemma nearestBits_eq (hn : n ≠ 0) :
    nearestBits n = (n.log2 + 1022) * 2 ^ 52 + significand n := by
  unfold nearestBits significand nearestQuotient
  rw [if_neg hn]
  simp only [Nat.shiftLeft_eq, Nat.shiftRight_eq_div_pow, one_mul]
  split
  · rfl
  · simp only [Bool.or_eq_true, Bool.and_eq_true, decide_eq_true_eq, beq_iff_eq]

lemma lt_iff_log2_le (hn : n ≠ 0) : n < 2 ^ 53 ↔ n.log2 ≤ 52 := by
  rw [← Nat.log2_lt hn]
  omega

lemma le_significand (hn : n ≠ 0) : 2 ^ 52 ≤ significand n := by
  have hle : 2 ^ n.log2 ≤ n := Nat.log2_self_le hn
  unfold significand
  split
  · rename_i hsmall
    have hlog := (lt_iff_log2_le hn).mp hsmall
    calc
      2 ^ 52 = 2 ^ n.log2 * 2 ^ (52 - n.log2) := by rw [← pow_add]; congr 1; omega
      _ ≤ n * 2 ^ (52 - n.log2) := Nat.mul_le_mul_right _ hle
  · rename_i hlarge
    have hlog : 52 < n.log2 := by rw [lt_iff_log2_le hn] at hlarge; omega
    refine le_trans ?_ (le_nearestQuotient _ _)
    rw [Nat.le_div_iff_mul_le (by positivity), ← pow_add]
    convert hle using 2
    omega

lemma significand_lt (hn : n ≠ 0) (hsmall : n < 2 ^ 53) : significand n < 2 ^ 53 := by
  have hlog := (lt_iff_log2_le hn).mp hsmall
  rw [significand, if_pos hsmall]
  calc
    n * 2 ^ (52 - n.log2) < 2 ^ (n.log2 + 1) * 2 ^ (52 - n.log2) :=
      Nat.mul_lt_mul_of_pos_right Nat.lt_log2_self (by positivity)
    _ = 2 ^ 53 := by rw [← pow_add]; congr 1; omega

lemma significand_le (hn : n ≠ 0) : significand n ≤ 2 ^ 53 := by
  by_cases hsmall : n < 2 ^ 53
  · exact (significand_lt hn hsmall).le
  · have hlog : 52 < n.log2 := by rw [lt_iff_log2_le hn] at hsmall; omega
    have hlt : n / 2 ^ (n.log2 - 52) < 2 ^ 53 := by
      rw [Nat.div_lt_iff_lt_mul (by positivity), ← pow_add]
      convert (Nat.lt_log2_self : n < 2 ^ (n.log2 + 1)) using 2
      omega
    rw [significand, if_neg hsmall]
    exact le_trans (nearestQuotient_le _ _) hlt

lemma significand_mono (hm : m ≠ 0) (h : m ≤ n) (hlog : m.log2 = n.log2) :
    significand m ≤ significand n := by
  have hn : n ≠ 0 := by omega
  have hsmall : m < 2 ^ 53 ↔ n < 2 ^ 53 := by rw [lt_iff_log2_le hm, lt_iff_log2_le hn, hlog]
  unfold significand
  rw [hlog]
  by_cases hn : n < 2 ^ 53
  · rw [if_pos hn, if_pos (hsmall.mpr hn)]
    exact Nat.mul_le_mul_right _ h
  · rw [if_neg hn, if_neg (fun hm => hn (hsmall.mp hm))]
    exact nearestQuotient_mono h _

/-! ### Nearest doubles -/

lemma log2_mono (h : m ≤ n) : m.log2 ≤ n.log2 := by
  rw [Nat.log2_eq_log_two, Nat.log2_eq_log_two]
  exact Nat.log_mono_right h

/-- A greater number has no lesser double. The exponents decide, and the significands where they are
the same. -/
lemma nearestBits_mono (h : m ≤ n) : nearestBits m ≤ nearestBits n := by
  rcases Nat.eq_zero_or_pos m with rfl | hpos
  · exact Nat.zero_le _
  · have hm : m ≠ 0 := by omega
    have hn : n ≠ 0 := by omega
    rw [nearestBits_eq hm, nearestBits_eq hn]
    rcases (log2_mono h).lt_or_eq with hlt | heq
    · have hhigh := significand_le hm
      have hlow := le_significand hn
      omega
    · have hsignificand := significand_mono hm h heq
      omega

/-- The numbers below `2 ^ 53` are told apart from all others. -/
lemma nearestBits_lt (h : m < n) (hsmall : m < 2 ^ 53) : nearestBits m < nearestBits n := by
  have hn : n ≠ 0 := by omega
  have hlow := le_significand hn
  rw [nearestBits_eq hn]
  rcases Nat.eq_zero_or_pos m with rfl | hpos
  · have hzero : nearestBits 0 = 0 := rfl
    omega
  · have hm : m ≠ 0 := by omega
    rw [nearestBits_eq hm]
    rcases (log2_mono h.le).lt_or_eq with hlt | heq
    · have hhigh := significand_lt hm hsmall
      omega
    · have hsmall' : n < 2 ^ 53 := by
        rw [lt_iff_log2_le hn, ← heq]
        exact (lt_iff_log2_le hm).mp hsmall
      have hsignificand : significand m < significand n := by
        rw [significand, significand, if_pos hsmall, if_pos hsmall', heq]
        exact Nat.mul_lt_mul_of_pos_right h (by positivity)
      omega

variable {i j : Int}

/-- A greater integer has no lesser place among the doubles. -/
lemma placeOfInt_mono (h : i ≤ j) : placeOfInt i ≤ placeOfInt j := by
  unfold placeOfInt
  split
  · split
    · have := nearestBits_mono (m := j.natAbs) (n := i.natAbs) (by omega)
      omega
    · omega
  · rw [if_neg (by omega)]
    have := nearestBits_mono (m := i.natAbs) (n := j.natAbs) (by omega)
    omega

/-- Two integers are at two places unless both are far from zero. -/
lemma placeOfInt_lt (h : i < j) (hsmall : i.natAbs < 2 ^ 53 ∨ j.natAbs < 2 ^ 53) :
    placeOfInt i < placeOfInt j := by
  unfold placeOfInt
  split
  · split
    · have := nearestBits_lt (m := j.natAbs) (n := i.natAbs) (by omega) (by omega)
      omega
    · have := nearestBits_lt (m := 0) (n := i.natAbs) (by omega) (by decide)
      omega
  · rw [if_neg (by omega)]
    have := nearestBits_lt (m := i.natAbs) (n := j.natAbs) (by omega) (by omega)
    omega

end EntityStore.Binary64
