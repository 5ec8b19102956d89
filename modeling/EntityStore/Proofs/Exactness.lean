import EntityStore.Proofs.Soundness
import Mathlib.Data.Int.Bitwise

/-!
Integer operators against those on integers without bounds. An operator has the exact result or is
refused, and it is refused wherever the exact result is not of 64 bits or there is none. The shift
to the left is the exception: it keeps the lowest 64 bits of the exact product, and is refused for
nothing but its count.
-/

namespace EntityStore

/-! ### Exact results -/

/-- The result on integers without bounds, if there is one. Their bits go on with the sign without
end. -/
def UnaryOp.unbounded? (a : Int) : UnaryOp → Option Int
  | not => none
  | negate => some (-a)
  | bitNot => some a.lnot

/-- The result on integers without bounds, if there is one. Division cuts off toward zero, and a
shift multiplies by a power of two, or divides by it and rounds down. -/
def BinaryOp.unbounded? (a b : Int) : BinaryOp → Option Int
  | add => some (a + b)
  | sub => some (a - b)
  | mul => some (a * b)
  | div => if b = 0 then none else some (a.tdiv b)
  | rem => if b = 0 then none else some (a.tmod b)
  | bitAnd => some (a.land b)
  | bitOr => some (a.lor b)
  | bitXor => some (a.xor b)
  | power => if b < 0 then none else some (a ^ b.toNat)
  | shiftLeft => if b < 0 then none else some (a * 2 ^ b.toNat)
  | shiftRight => if b < 0 then none else some (a.fdiv (2 ^ b.toNat))
  | _ => none

/-! ### Bits -/

/-- Integers that agree in each of their bits are equal. -/
lemma eq_of_testBit_eq {i j : Int} (h : ∀ k, i.testBit k = j.testBit k) : i = j := by
  have hfar : ∀ m n : Nat, m.testBit (m + n) = false := fun m n =>
    Nat.testBit_lt_two_pow (Nat.lt_of_le_of_lt (Nat.le_add_right m n) Nat.lt_two_pow_self)
  rcases i with m | m <;> rcases j with n | n
  · exact congrArg Int.ofNat (Nat.eq_of_testBit_eq h)
  · have hbit := h (m + n)
    rw [Int.testBit, Int.testBit, hfar, Nat.add_comm, hfar] at hbit
    cases hbit
  · have hbit := h (m + n)
    rw [Int.testBit, Int.testBit, hfar, Nat.add_comm, hfar] at hbit
    cases hbit
  · refine congrArg Int.negSucc (Nat.eq_of_testBit_eq fun k => ?_)
    exact Bool.not_inj (h k)

/-- The integer that a bit vector stands for goes on with the sign above its bits. -/
lemma testBit_toInt {w : Nat} (x : BitVec w) (k : Nat) :
    x.toInt.testBit k = if k < w then x.getLsbD k else x.msb := by
  rcases hx : x.msb with _ | _
  · rw [BitVec.toInt_eq_toNat_of_msb hx]
    change x.getLsbD k = _
    split
    · rfl
    · exact BitVec.getLsbD_of_ge x k (by omega)
  · have hneg : x.toInt = Int.negSucc (~~~x).toNat := by
      have hlt := x.isLt
      rw [BitVec.toInt_eq_msb_cond, hx, BitVec.toNat_not, if_pos rfl]
      omega
    rw [hneg]
    change (!(~~~x).getLsbD k) = _
    rw [BitVec.getLsbD_not]
    split
    · rename_i hk
      simp [hk]
    · rename_i hk
      simp [hk]

lemma testBit_toInt64 (a : Int64) (k : Nat) :
    a.toInt.testBit k = if k < 64 then a.toBitVec.getLsbD k else a.toBitVec.msb :=
  testBit_toInt a.toBitVec k

lemma toInt_and (a b : Int64) : (a &&& b).toInt = a.toInt.land b.toInt := by
  refine eq_of_testBit_eq fun k => ?_
  rw [Int.testBit_land, testBit_toInt64, testBit_toInt64, testBit_toInt64]
  split <;> simp

lemma toInt_or (a b : Int64) : (a ||| b).toInt = a.toInt.lor b.toInt := by
  refine eq_of_testBit_eq fun k => ?_
  rw [Int.testBit_lor, testBit_toInt64, testBit_toInt64, testBit_toInt64]
  split <;> simp

lemma toInt_xor (a b : Int64) : (a ^^^ b).toInt = a.toInt.xor b.toInt := by
  refine eq_of_testBit_eq fun k => ?_
  rw [Int.testBit_lxor, testBit_toInt64, testBit_toInt64, testBit_toInt64]
  split <;> simp

lemma toInt_complement (a : Int64) : (~~~a).toInt = a.toInt.lnot := by
  refine eq_of_testBit_eq fun k => ?_
  rw [Int.testBit_lnot, testBit_toInt64, testBit_toInt64]
  split
  · rename_i hk
    simp [hk]
  · simp

/-! ### Shifts -/

variable {a b c : Int64}

/-- A count below 64 is shifted by as it is. -/
lemma toNat_smod (hb : Value.isShift b) : (b.toBitVec.smod 64).toNat = b.toInt.toNat := by
  have hrange : 0 ≤ b.toInt ∧ b.toInt < 64 := by simpa [Value.isShift] using hb
  have hcount : (b.toBitVec.smod 64).toInt = b.toInt := by
    rw [BitVec.toInt_smod]
    exact Int.fmod_eq_of_lt hrange.1 hrange.2
  have hlt := (b.toBitVec.smod 64).isLt
  rw [BitVec.toInt_eq_toNat_cond] at hcount
  split at hcount <;> omega

/-- What a shift to the left keeps of the product. -/
lemma toInt_shiftLeft (hb : Value.isShift b) :
    (a <<< b).toInt = (a.toInt * 2 ^ b.toInt.toNat).bmod (2 ^ 64) := by
  have ha : a.toInt = (a.toBitVec.toNat : Int).bmod (2 ^ 64) := a.toBitVec.toInt_eq_toNat_bmod
  change (a.toBitVec <<< (b.toBitVec.smod 64)).toInt = _
  rw [BitVec.shiftLeft_eq', toNat_smod hb, BitVec.toInt_shiftLeft, ha, Int.bmod_mul_bmod,
    Nat.shiftLeft_eq]
  push_cast
  rfl

lemma toInt_shiftRight (hb : Value.isShift b) :
    (a >>> b).toInt = a.toInt.fdiv (2 ^ b.toInt.toNat) := by
  change (BitVec.sshiftRight' a.toBitVec (b.toBitVec.smod 64)).toInt = _
  rw [BitVec.toInt_sshiftRight', toNat_smod hb, Int.shiftRight_eq_div_pow,
    Int.fdiv_eq_ediv_of_nonneg _ (by positivity)]
  rfl

/-- An integer keeps its value in 64 bits just if it is one of them. -/
lemma bmod_eq_self_iff {i : Int} : i.bmod (2 ^ 64) = i ↔ InRange i := by
  unfold InRange
  rw [Int.bmod_def]
  omega

/-! ### Results of operators -/

namespace Value

variable {op : BinaryOp}

lemma integer_eq_ok (h : integer op a b = .ok (int c)) :
    integerResult? op a b = some c ∧ (op = .div ∨ op = .rem → b.toInt ≠ 0) := by
  unfold integer at h
  split at h
  · cases h
  · rename_i hzero
    split at h
    · rename_i r hr
      cases h
      refine ⟨hr, fun hop hb => hzero ⟨hop, ?_⟩⟩
      rw [← Int64.toInt_inj]
      exact hb
    · cases h

/-- Every operator but the shift to the left has the exact result, if it has one. -/
lemma exact_of_integer (hop : op ≠ .shiftLeft) (h : integer op a b = .ok (int c)) :
    op.unbounded? a.toInt b.toInt = some c.toInt := by
  obtain ⟨hr, hzero⟩ := integer_eq_ok h
  cases op with
  | add | sub | mul => exact congrArg some (fit?_eq_some.mp hr).symm
  | div =>
    rw [BinaryOp.unbounded?, if_neg (hzero (.inl rfl))]
    exact congrArg some (fit?_eq_some.mp hr).symm
  | rem =>
    obtain ⟨q, -, hr⟩ := Option.bind_eq_some_iff.mp hr
    rw [BinaryOp.unbounded?, if_neg (hzero (.inr rfl))]
    exact congrArg some (fit?_eq_some.mp hr).symm
  | bitAnd => cases hr; exact congrArg some (toInt_and a b).symm
  | bitOr => cases hr; exact congrArg some (toInt_or a b).symm
  | bitXor => cases hr; exact congrArg some (toInt_xor a b).symm
  | power =>
    rw [integerResult?, power?_eq] at hr
    split at hr
    · cases hr
    · rename_i hb
      rw [BinaryOp.unbounded?, if_neg (fun hneg => hb (.inl hneg))]
      exact congrArg some (fit?_eq_some.mp hr).symm
  | shiftRight =>
    rw [integerResult?] at hr
    split at hr
    · rename_i hb
      cases hr
      have hpos : ¬ b.toInt < 0 := by simp [isShift] at hb; omega
      rw [BinaryOp.unbounded?, if_neg hpos, toInt_shiftRight hb]
    · cases hr
  | shiftLeft => exact absurd rfl hop
  | _ => cases hr

/-- The shift to the left has the exact product cut down to 64 bits. -/
lemma product_of_integer (h : integer .shiftLeft a b = .ok (int c)) :
    ∃ i, BinaryOp.shiftLeft.unbounded? a.toInt b.toInt = some i ∧ c.toInt = i.bmod (2 ^ 64) := by
  obtain ⟨hr, -⟩ := integer_eq_ok h
  rw [integerResult?] at hr
  split at hr
  · rename_i hb
    cases hr
    have hpos : ¬ b.toInt < 0 := by simp [isShift] at hb; omega
    exact ⟨_, by rw [BinaryOp.unbounded?, if_neg hpos], toInt_shiftLeft hb⟩
  · cases hr

end Value

/-! ### Operators in a tree -/

namespace Expr

variable {T : EntityType} {e : Entity} {x l r y : Expr}

/-- The tree is an integer operator, and its operands have integers for values. -/
def OnIntegers (T : EntityType) (e : Entity) : Expr → Prop
  | unary op x => op ≠ .not ∧ ∃ a : Int64, x.eval T e = .ok (.int a)
  | binary op l r =>
    op.isInteger ∧ ∃ a b : Int64, l.eval T e = .ok (.int a) ∧ r.eval T e = .ok (.int b)
  | _ => False

/-- The exact result of an operator on the integers that its operands have for values. -/
def unbounded? (T : EntityType) (e : Entity) : Expr → Option Int
  | unary op x =>
    match x.eval T e with
    | .ok (.int a) => op.unbounded? a.toInt
    | _ => none
  | binary op l r =>
    match l.eval T e, r.eval T e with
    | .ok (.int a), .ok (.int b) => op.unbounded? a.toInt b.toInt
    | _, _ => none
  | _ => none

def shiftsLeft : Expr → Bool
  | binary .shiftLeft _ _ => true
  | _ => false

/-- On integers an operator has an integer for its value, or it overflows and is refused. -/
lemma OnIntegers.eval_cases (hy : y.OnIntegers T e) :
    (∃ c, y.eval T e = .ok (.int c)) ∧ ¬ y.Overflows T e ∨
      (∃ why, y.eval T e = refuse why) ∧ y.Overflows T e := by
  cases y with
  | unary op x =>
    obtain ⟨hop, a, ha⟩ := hy
    cases op with
    | not => exact absurd rfl hop
    | negate =>
      rw [eval, ha, ok_bind, Value.unary]
      rcases hfit : fit? (-a.toInt) with _ | c
      · exact .inr ⟨⟨_, rfl⟩, a, ha, fit?_eq_none.mp hfit⟩
      · refine .inl ⟨⟨c, rfl⟩, ?_⟩
        rintro ⟨a', ha', hover⟩
        obtain rfl : a = a' := by simpa [ha] using ha'
        rw [fit?_eq_none.mpr hover] at hfit
        cases hfit
    | bitNot => exact .inl ⟨⟨~~~a, by rw [eval, ha]; rfl⟩, id⟩
  | binary op l r =>
    obtain ⟨hop, a, b, ha, hb⟩ := hy
    rw [eval_integers hop ha hb]
    refine (Value.integer_cases hop a b).imp (fun h => ⟨h.1, ?_⟩) fun h =>
      ⟨h.1, a, b, ha, hb, hop, h.2⟩
    rintro ⟨a', b', ha', hb', -, hover⟩
    obtain rfl : a = a' := by simpa [ha] using ha'
    obtain rfl : b = b' := by simpa [hb] using hb'
    exact h.2 hover
  | _ => cases hy

/-- What an operator but the shift to the left has for its value is exact. -/
lemma OnIntegers.unbounded?_eq (hy : y.OnIntegers T e) (hshift : y.shiftsLeft = false)
    (h : y.eval T e = .ok (.int c)) : y.unbounded? T e = some c.toInt := by
  cases y with
  | unary op x =>
    obtain ⟨hop, a, ha⟩ := hy
    rw [eval, ha, ok_bind] at h
    simp only [unbounded?, ha]
    cases op with
    | not => exact absurd rfl hop
    | negate =>
      simp only [Value.unary] at h
      split at h
      · rename_i j hj
        cases h
        exact congrArg some (fit?_eq_some.mp hj).symm
      · cases h
    | bitNot => cases h; exact congrArg some (toInt_complement a).symm
  | binary op l r =>
    obtain ⟨hop, a, b, ha, hb⟩ := hy
    rw [eval_integers hop ha hb] at h
    simp only [unbounded?, ha, hb]
    refine Value.exact_of_integer ?_ h
    rintro rfl
    cases hshift
  | _ => cases hy

/-- The shift to the left has the exact product for its value, cut down to 64 bits. -/
lemma OnIntegers.unbounded?_shiftLeft (hy : y.OnIntegers T e) (hshift : y.shiftsLeft)
    (h : y.eval T e = .ok (.int c)) :
    ∃ i, y.unbounded? T e = some i ∧ c.toInt = i.bmod (2 ^ 64) := by
  cases y with
  | binary op l r =>
    obtain rfl : op = .shiftLeft := by cases op <;> cases hshift; rfl
    obtain ⟨hop, a, b, ha, hb⟩ := hy
    rw [eval_integers hop ha hb] at h
    simp only [unbounded?, ha, hb]
    exact Value.product_of_integer h
  | _ => cases hshift

/-- **Integers are exact, but for what is shifted out.** An integer operator on integers has an
integer for its value, or it overflows and is refused. Any but the shift to the left then has the
exact result, and is refused where that is not of 64 bits or there is none. The shift to the left
has the exact product cut down to 64 bits, so the exact one just where it is of 64 bits. -/
theorem eval_onIntegers (hy : y.OnIntegers T e) :
    ((∃ c, y.eval T e = .ok (.int c)) ∧ ¬ y.Overflows T e ∨
      (∃ why, y.eval T e = refuse why) ∧ y.Overflows T e) ∧
    (y.shiftsLeft = false →
      (∀ c, y.eval T e = .ok (.int c) → y.unbounded? T e = some c.toInt) ∧
      ((∀ i, y.unbounded? T e = some i → ¬ InRange i) → ∃ why, y.eval T e = refuse why)) ∧
    (y.shiftsLeft → ∀ c, y.eval T e = .ok (.int c) →
      ∃ i, y.unbounded? T e = some i ∧ c.toInt = i.bmod (2 ^ 64) ∧ (c.toInt = i ↔ InRange i)) := by
  refine ⟨hy.eval_cases, fun hshift => ⟨fun c hc => hy.unbounded?_eq hshift hc, fun hnone => ?_⟩,
    fun hshift c hc => ?_⟩
  · rcases hy.eval_cases with ⟨⟨c, hc⟩, -⟩ | ⟨hrefused, -⟩
    · exact absurd ⟨c.le_toInt, c.toInt_lt⟩ (hnone _ (hy.unbounded?_eq hshift hc))
    · exact hrefused
  · obtain ⟨i, hi, hbits⟩ := hy.unbounded?_shiftLeft hshift hc
    refine ⟨i, hi, hbits, ?_⟩
    rw [hbits]
    exact bmod_eq_self_iff

end Expr

namespace Club

/-- Half of what is left of the number of a member. -/
def half : Expr :=
  .binary .shiftRight (.binary .sub (.field "memberId") (.constant (.int 10))) (.constant (.int 1))

/-- Half of minus three is rounded down. -/
theorem bob_half : half.OnIntegers member.type bob ∧
    half.eval member.type bob = .ok (.int (-2)) ∧ half.unbounded? member.type bob = some (-2) := by
  have hon : half.OnIntegers member.type bob := ⟨rfl, -3, 1, rfl, rfl⟩
  have heval : half.eval member.type bob = .ok (.int (-2)) := rfl
  exact ⟨hon, heval, ((Expr.eval_onIntegers hon).2.1 rfl).1 _ heval⟩

/-- The number of a member, multiplied by a power of two. -/
def shifted : Expr := .binary .shiftLeft (.field "memberId") (.constant (.int 62))

/-- The product is not of 64 bits, and is not refused. -/
theorem bob_shifted : shifted.OnIntegers member.type bob ∧
    shifted.eval member.type bob = .ok (.int (-4611686018427387904)) ∧
    shifted.unbounded? member.type bob = some (7 * 2 ^ 62) ∧ ¬ InRange (7 * 2 ^ 62) := by
  have hon : shifted.OnIntegers member.type bob := ⟨rfl, 7, 62, rfl, rfl⟩
  have hexact : shifted.unbounded? member.type bob = BinaryOp.shiftLeft.unbounded? 7 62 := rfl
  exact ⟨hon, rfl, hexact, by unfold InRange; omega⟩

end Club

end EntityStore
