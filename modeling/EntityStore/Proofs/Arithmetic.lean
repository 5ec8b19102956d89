import EntityStore.Predicate.Evaluate
import Mathlib.Algebra.Order.Ring.Int
import Mathlib.Algebra.Ring.Parity
import Mathlib.Tactic.Lemma
import Mathlib.Tactic.NormNum

/-!
Integer operators, and when they have a result. Addition, subtraction, multiplication, division and
powers have one where the exact result is of 64 bits; a shift has one for every count below 64,
whatever the bits that it moves out.
-/

namespace EntityStore

/-- The integer is one of 64 bits. -/
def InRange (i : Int) : Prop := -2 ^ 63 ≤ i ∧ i < 2 ^ 63

lemma fit?_eq_some {i : Int} {j : Int64} : fit? i = some j ↔ j.toInt = i := by
  have hmin : Int64.minValue.toInt = -2 ^ 63 := rfl
  have hmax : Int64.maxValue.toInt = 2 ^ 63 - 1 := rfl
  have hle := j.le_toInt
  have hlt := j.toInt_lt
  unfold fit?
  split
  · rename_i h
    rw [Option.some.injEq]
    constructor
    · rintro rfl
      exact Int64.toInt_ofInt_of_le (by omega) (by omega)
    · rintro rfl
      exact Int64.ofInt_toInt j
  · rename_i h
    constructor
    · intro h'; cases h'
    · rintro rfl; omega

lemma fit?_eq_none {i : Int} : fit? i = none ↔ ¬ InRange i := by
  have hmin : Int64.minValue.toInt = -2 ^ 63 := rfl
  have hmax : Int64.maxValue.toInt = 2 ^ 63 - 1 := rfl
  unfold fit? InRange
  split
  · simp; omega
  · simp; omega

namespace BinaryOp

/-- The operators that make an integer of two. -/
def isInteger : BinaryOp → Bool
  | add | sub | mul | div | rem | bitAnd | bitOr | bitXor | power | shiftLeft | shiftRight => true
  | _ => false

/-- On these integers the operator has no result: the exact one is not of 64 bits, the divisor is
zero, or the exponent or the count of a shift is out of range. A remainder overflows with its
quotient. -/
def Overflows (a b : Int) : BinaryOp → Prop
  | add => ¬ InRange (a + b)
  | sub => ¬ InRange (a - b)
  | mul => ¬ InRange (a * b)
  | div | rem => b = 0 ∨ ¬ InRange (a.tdiv b)
  | power => b < 0 ∨ 2 ^ 32 ≤ b ∨ ¬ InRange (a ^ b.toNat)
  | shiftLeft | shiftRight => b < 0 ∨ 64 ≤ b
  | _ => False

end BinaryOp

namespace Value

/-! ### Powers -/

/-- Of zero, one and minus one a power depends on whether the exponent is zero, odd or even. -/
lemma pow_of_natAbs_le_one {a : Int} (ha : a.natAbs ≤ 1) (n : Nat) :
    a ^ (if n = 0 then 0 else 2 - n % 2) = a ^ n := by
  split
  · rename_i hn
    rw [hn]
  · rename_i hn
    obtain rfl | rfl | rfl : a = 0 ∨ a = 1 ∨ a = -1 := by omega
    · rw [zero_pow hn, zero_pow (by omega)]
    · rw [one_pow, one_pow]
    · rcases Nat.even_or_odd n with heven | hodd
      · rw [heven.neg_one_pow, Nat.even_iff.mp heven]
        rfl
      · rw [hodd.neg_one_pow, Nat.odd_iff.mp hodd]
        rfl

/-- A power of at least 64 of anything else is too great. -/
lemma not_inRange_pow {a : Int} {n : Nat} (ha : 1 < a.natAbs) (hn : 64 ≤ n) :
    ¬ InRange (a ^ n) := by
  have hgreat : 2 ^ 64 ≤ (a ^ n).natAbs := calc
    2 ^ 64 ≤ 2 ^ n := Nat.pow_le_pow_right (by decide) hn
    _ ≤ a.natAbs ^ n := Nat.pow_le_pow_left ha n
    _ = (a ^ n).natAbs := (Int.natAbs_pow a n).symm
  unfold InRange
  omega

lemma power?_eq (a b : Int64) : power? a b =
    if b.toInt < 0 ∨ 2 ^ 32 ≤ b.toInt then none else fit? (a.toInt ^ b.toInt.toNat) := by
  have hpow : ∀ (i : Int) (n : Nat), Int.pow i n = i ^ n := fun _ _ => rfl
  have hsize : (UInt32.size : Int) = 2 ^ 32 := rfl
  unfold power?
  rw [hsize]
  split
  · rfl
  · simp only [hpow]
    split
    · rename_i ha
      rw [pow_of_natAbs_le_one ha]
    · rename_i ha
      split
      · rename_i hn
        exact (fit?_eq_none.mpr (not_inRange_pow (by omega) hn)).symm
      · rfl

lemma power?_eq_none {a b : Int64} :
    power? a b = none ↔ BinaryOp.power.Overflows a.toInt b.toInt := by
  rw [power?_eq, BinaryOp.Overflows]
  split
  · rename_i h
    simp only [true_iff]
    exact h.imp_right .inl
  · rename_i h
    rw [fit?_eq_none, ← or_assoc]
    exact (or_iff_right h).symm

/-! ### All operators -/

/-- A remainder fits wherever there is one. -/
lemma inRange_tmod (a b : Int64) : InRange (a.toInt.tmod b.toInt) := by
  have hle := a.le_toInt
  have hlt := a.toInt_lt
  have hsmall : (a.toInt.tmod b.toInt).natAbs ≤ a.toInt.natAbs := by
    rw [Int.natAbs_tmod]
    exact Nat.mod_le _ _
  have hpos : 0 ≤ a.toInt → 0 ≤ a.toInt.tmod b.toInt := fun h => Int.tmod_nonneg _ h
  have hneg : 0 ≤ -a.toInt → 0 ≤ -a.toInt.tmod b.toInt := fun h => by
    rw [← Int.neg_tmod]
    exact Int.tmod_nonneg _ h
  unfold InRange
  omega

lemma integerResult?_rem_eq_none {a b : Int64} :
    integerResult? .rem a b = none ↔ ¬ InRange (a.toInt.tdiv b.toInt) := by
  obtain ⟨r, hr⟩ : ∃ r, fit? (a.toInt.tmod b.toInt) = some r := by
    rw [← Option.ne_none_iff_exists']
    exact fun h => fit?_eq_none.mp h (inRange_tmod a b)
  simp [integerResult?, hr, fit?_eq_none, Option.bind_eq_none_iff,
    ← Option.eq_none_iff_forall_ne_some]

lemma isShift_eq_false {b : Int64} : isShift b = false ↔ b.toInt < 0 ∨ 64 ≤ b.toInt := by
  simp [isShift]
  omega

/-- Two integers have an integer for a result, or the operator is refused; it is just where it
overflows. -/
lemma integer_cases {op : BinaryOp} (hop : op.isInteger) (a b : Int64) :
    (∃ r, integer op a b = .ok (int r)) ∧ ¬ op.Overflows a.toInt b.toInt ∨
      (∃ why, integer op a b = refuse why) ∧ op.Overflows a.toInt b.toInt := by
  have hzero : b = 0 ↔ b.toInt = 0 := by rw [← Int64.toInt_inj]; rfl
  have hresult : ((op = .div ∨ op = .rem) ∧ b = 0) ∨ integerResult? op a b = none ↔
      op.Overflows a.toInt b.toInt := by
    rw [hzero]
    cases op <;> try cases hop
    case rem => simp [integerResult?_rem_eq_none, BinaryOp.Overflows]
    case power => simp [integerResult?, power?_eq_none]
    all_goals
      simp [integerResult?, fit?_eq_none, isShift_eq_false, BinaryOp.Overflows]
  unfold integer
  split
  · rename_i h
    exact .inr ⟨⟨_, rfl⟩, hresult.mp (.inl h)⟩
  · rename_i h
    split
    · rename_i r hr
      refine .inl ⟨⟨r, rfl⟩, fun hover => ?_⟩
      rcases hresult.mpr hover with h' | h'
      · exact h h'
      · rw [hr] at h'; cases h'
    · rename_i hr
      exact .inr ⟨⟨_, rfl⟩, hresult.mp (.inr hr)⟩

end Value

end EntityStore
