import EntityStore.Proofs.Emptiness
import EntityStore.Proofs.TruthPositions

/-!
De Morgan's laws in memory. A connective counts a null as false, but the negation of a null is a
null, which counts as false again. So the negation of a connective is the dual connective of the
negations, unless some operand is a null and none settles the connective; there the negation holds
and the dual connective does not.

Whether an operand is evaluated at all depends on the one before it. Where both have a truth value
this does not show, for then a connective has one too, whichever of them it looks at.
-/

namespace EntityStore

namespace BinaryOp

/-- Conjunction for disjunction and the other way round. -/
def dual : BinaryOp → BinaryOp
  | and => or
  | or => and
  | op => op

/-- The truth value that settles a connective whichever operand has it. -/
def settling : BinaryOp → Bool
  | or => true
  | _ => false

lemma isLogical_dual {op : BinaryOp} (hop : op.isLogical) : op.dual.isLogical := by
  cases op <;> cases hop <;> rfl

lemma settling_dual {op : BinaryOp} (hop : op.isLogical) : op.dual.settling = !op.settling := by
  cases op <;> cases hop <;> rfl

end BinaryOp

namespace Expr

variable {T : EntityType} {e : Entity} {x l r : Expr} {op : BinaryOp} {a b : Bool}

/-! ### Truth values -/

/-- What is decided is a bool, or a null that counts as false. -/
lemma satisfied_eq_ok : x.satisfied T e = .ok b ↔
    x.eval T e = .ok (.bool b) ∨ x.eval T e = .ok .null ∧ b = false := by
  rw [satisfied, except_bind_eq_ok]
  constructor
  · rintro ⟨v, hv, hb⟩
    cases v with
    | bool c => cases hb; exact .inl hv
    | null => cases hb; exact .inr ⟨hv, rfl⟩
    | _ => cases hb
  · rintro (hv | ⟨hv, rfl⟩)
    · exact ⟨_, hv, rfl⟩
    · exact ⟨_, hv, rfl⟩

/-- A connective has the truth value of its left operand if that settles it, and else of its right
one. -/
lemma eval_logical (hop : op.isLogical) (hl : l.satisfied T e = .ok a)
    (hr : r.satisfied T e = .ok b) :
    (binary op l r).eval T e = .ok (.bool (if a = op.settling then a else b)) := by
  cases op <;> cases hop
  · rw [eval_and, hl, hr]
    cases a <;> rfl
  · rw [eval_or, hl, hr]
    cases a <;> rfl

lemma eval_not (hx : x.eval T e = .ok (.bool b)) :
    (unary .not x).eval T e = .ok (.bool !b) := by
  rw [eval, hx]
  rfl

lemma eval_not_null (hx : x.eval T e = .ok .null) : (unary .not x).eval T e = .ok .null := by
  rw [eval, hx]
  rfl

/-! ### The negation of a connective -/

/-- Some operand is a null, and none settles the connective. -/
def Clouded (T : EntityType) (e : Entity) (op : BinaryOp) (l r : Expr) : Prop :=
  (l.eval T e = .ok .null ∨ r.eval T e = .ok .null) ∧
    l.eval T e ≠ .ok (.bool op.settling) ∧ r.eval T e ≠ .ok (.bool op.settling)

/-- The negation of a tree that is decided is decided too. Both are false of a null, and of nothing
else. -/
lemma satisfied_not (hx : x.satisfied T e = .ok a) : ∃ n, (unary .not x).satisfied T e = .ok n ∧
    (a = true → n = false) ∧ (x.eval T e = .ok (.bool true) ↔ a = true) ∧
    (x.eval T e = .ok (.bool false) ↔ n = true) ∧
    (x.eval T e = .ok .null ↔ a = false ∧ n = false) := by
  rcases satisfied_eq_ok.mp hx with hv | ⟨hv, rfl⟩
  · refine ⟨!a, satisfied_eq_ok.mpr (.inl (eval_not hv)), ?_⟩
    cases a <;> simp [hv]
  · refine ⟨false, satisfied_eq_ok.mpr (.inr ⟨eval_not_null hv, rfl⟩), ?_⟩
    simp [hv]

/-- Both forms have a truth value, and they differ just where the operands are clouded. -/
lemma eval_negations (hop : op.isLogical) (hl : l.satisfied T e = .ok a)
    (hr : r.satisfied T e = .ok b) : ∃ s t,
    (unary .not (binary op l r)).eval T e = .ok (.bool s) ∧
    (binary op.dual (unary .not l) (unary .not r)).eval T e = .ok (.bool t) ∧
    (Clouded T e op l r → s = true ∧ t = false) ∧ (¬ Clouded T e op l r → s = t) := by
  obtain ⟨m, hm, hlex, hltrue, hlfalse, hlnull⟩ := satisfied_not hl
  obtain ⟨n, hn, hrex, hrtrue, hrfalse, hrnull⟩ := satisfied_not hr
  refine ⟨_, _, eval_not (eval_logical hop hl hr),
    eval_logical (BinaryOp.isLogical_dual hop) hm hn, ?_⟩
  rw [BinaryOp.settling_dual hop]
  -- What the operands are is by now a matter of four truth values.
  cases op <;> cases hop
  all_goals
    simp only [Clouded, BinaryOp.settling, hlnull, hrnull]
    grind

/-- **De Morgan's laws, clouded by nulls.** Two operands that are decided decide the negation of
their connective and the dual connective of their negations. If some operand is a null and none
settles the connective, the first holds and the second does not. Otherwise they are alike, and
either can be put for the other below any connectives. -/
theorem de_morgan (hop : op.isLogical) (hl : l.satisfied T e = .ok a)
    (hr : r.satisfied T e = .ok b) :
    (Clouded T e op l r → (unary .not (binary op l r)).satisfied T e = .ok true ∧
      (binary op.dual (unary .not l) (unary .not r)).satisfied T e = .ok false) ∧
    (¬ Clouded T e op l r →
      (∃ s, (unary .not (binary op l r)).satisfied T e = .ok s ∧
        (binary op.dual (unary .not l) (unary .not r)).satisfied T e = .ok s) ∧
      ∀ c : Surrounding, (c.fill (unary .not (binary op l r))).satisfied T e =
        (c.fill (binary op.dual (unary .not l) (unary .not r))).satisfied T e) := by
  obtain ⟨s, t, hs, ht, hclouded, hclear⟩ := eval_negations hop hl hr
  constructor
  · intro h
    obtain ⟨rfl, rfl⟩ := hclouded h
    exact ⟨satisfied_eq_ok.mpr (.inl hs), satisfied_eq_ok.mpr (.inl ht)⟩
  · intro h
    obtain rfl := hclear h
    refine ⟨⟨s, satisfied_eq_ok.mpr (.inl hs), satisfied_eq_ok.mpr (.inl ht)⟩, fun c => ?_⟩
    rw [satisfied, satisfied, c.eval_fill_congr (hs.trans ht.symm)]

end Expr

namespace Survey

/-- Someone who was asked for consent, and may not have answered. -/
def guest : Declaration where
  name := "Guest"
  fields := [("id", .int64), ("adult", .bool), ("consents", .optional .bool)]

/-- An adult who has not answered. -/
def silent : Entity where
  scalars := [("id", .int 1), ("adult", .bool true), ("consents", .null)]
  children := []

lemma silent_fits : guest.Fits silent.scalars :=
  Declaration.fits_of_forall₂ (.cons ⟨rfl, (1 : Int64), rfl⟩ (.cons ⟨rfl, true, rfl⟩
    (.cons ⟨rfl, none, rfl⟩ .nil)))

def consents : Expr := .field "consents"

def adult : Expr := .field "adult"

/-- An adult settles the disjunction, so nothing is clouded. -/
theorem silent_alike : ∃ s,
    (Expr.unary .not (.binary .or consents adult)).satisfied guest.type silent = .ok s ∧
    (Expr.binary .and (.unary .not consents) (.unary .not adult)).satisfied guest.type silent =
      .ok s := by
  have hl : consents.satisfied guest.type silent = .ok false := rfl
  have hr : adult.satisfied guest.type silent = .ok true := rfl
  have hclear : ¬ Expr.Clouded guest.type silent .or consents adult := fun h => h.2.2 rfl
  exact ((Expr.de_morgan rfl hl hr).2 hclear).1

/-- Not both adult and consenting, yet neither a minor nor one who refuses; and neither consenting
nor a minor, yet not both refusing and no minor. -/
theorem silent_clouded : guest.Fits silent.scalars ∧
    consents.satisfied guest.type silent = .ok false ∧
    adult.satisfied guest.type silent = .ok true ∧
    (Expr.unary .not (.binary .and consents adult)).satisfied guest.type silent = .ok true ∧
    (Expr.binary .or (.unary .not consents) (.unary .not adult)).satisfied guest.type silent =
      .ok false ∧
    (Expr.unary .not (.binary .or consents (.unary .not adult))).satisfied guest.type silent =
      .ok true ∧
    (Expr.binary .and (.unary .not consents) (.unary .not (.unary .not adult))).satisfied
      guest.type silent = .ok false :=
  ⟨silent_fits, rfl, rfl, rfl, rfl, rfl, rfl⟩

end Survey

end EntityStore
