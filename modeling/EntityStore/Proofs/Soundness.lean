import EntityStore.Proofs.Arithmetic
import EntityStore.Proofs.TruthPositions

/-!
Typed predicates. A tree whose operators get operands of the types they are made for has a value on
every well-typed entity, a null or one of the type of the tree, unless an integer operator that is
reached overflows. Floats can be looked for in a list and are no operands otherwise.
-/

namespace EntityStore

/-! ### Static types -/

/-- The value is one of the kind or a null. -/
def Value.Inhabits (v : Value) (k : Kind) : Prop := v = .null ∨ v.kind = k

/-- Values of the kind can be compared, and none of them lacks an order with another. -/
def Kind.IsOrdered (k : Kind) : Prop := k = .bool ∨ k = .integer ∨ k = .text ∨ k = .datetime

/-- The operators that also combine bools. -/
def BinaryOp.isBitwise : BinaryOp → Bool
  | bitAnd | bitOr | bitXor => true
  | _ => false

/-- The tree has a type over the fields of a declaration: that of the field or the value it is, or
the one that its operator makes of its operands. A null is of every type. -/
inductive Expr.HasType (d : Declaration) : Expr → Kind → Prop
  | constant {v : Value} {k : Kind} (hv : v.Inhabits k) : HasType d (.constant v) k
  | member {record : Captured} {name : String} {v : Value} {k : Kind}
    (hm : record.member? name = some v) (hv : v.Inhabits k) : HasType d (.member record name) k
  | field {name : String} {f : FieldKind} (hf : d.fields.lookup name = some f) :
    HasType d (.field name) f.type.scalar.kind
  | not {x : Expr} (hx : HasType d x .bool) : HasType d (.unary .not x) .bool
  | negate {x : Expr} (hx : HasType d x .integer) : HasType d (.unary .negate x) .integer
  | bitNot {x : Expr} (hx : HasType d x .integer) : HasType d (.unary .bitNot x) .integer
  | logical {op : BinaryOp} {l r : Expr} (hop : op.isLogical) (hl : HasType d l .bool)
    (hr : HasType d r .bool) : HasType d (.binary op l r) .bool
  | comparison {op : BinaryOp} {l r : Expr} {k : Kind} (hop : op.IsComparison) (hk : k.IsOrdered)
    (hl : HasType d l k) (hr : HasType d r k) : HasType d (.binary op l r) .bool
  | coalesce {l r : Expr} {k : Kind} (hk : k.IsOrdered) (hl : HasType d l k) (hr : HasType d r k) :
    HasType d (.binary .coalesce l r) k
  | integer {op : BinaryOp} {l r : Expr} (hop : op.isInteger) (hl : HasType d l .integer)
    (hr : HasType d r .integer) : HasType d (.binary op l r) .integer
  | join {l r : Expr} (hl : HasType d l .text) (hr : HasType d r .text) :
    HasType d (.binary .add l r) .text
  | bitwise {op : BinaryOp} {l r : Expr} (hop : op.isBitwise) (hl : HasType d l .bool)
    (hr : HasType d r .bool) : HasType d (.binary op l r) .bool
  | matching {how : Matching} {x p : Expr} (hx : HasType d x .text) (hp : HasType d p .text) :
    HasType d (.matching how x p) .bool
  | among {x : Expr} {k : Kind} {values : List Value} (hx : HasType d x k) :
    HasType d (.among x values) .bool

namespace Expr

/-- The second tree is the first one or stands in it. -/
inductive HasPart : Expr → Expr → Prop
  | self (x : Expr) : HasPart x x
  | operand {op : UnaryOp} {x y : Expr} (h : HasPart x y) : HasPart (.unary op x) y
  | left {op : BinaryOp} {l r y : Expr} (h : HasPart l y) : HasPart (.binary op l r) y
  | right {op : BinaryOp} {l r y : Expr} (h : HasPart r y) : HasPart (.binary op l r) y
  | target {how : Matching} {x p y : Expr} (h : HasPart x y) : HasPart (.matching how x p) y
  | pattern {how : Matching} {x p y : Expr} (h : HasPart p y) : HasPart (.matching how x p) y
  | sought {x y : Expr} {values : List Value} (h : HasPart x y) : HasPart (.among x values) y

/-- Evaluation of the first tree on the entity comes to the second one, which is a part of it. -/
inductive Reaches (T : EntityType) (e : Entity) : Expr → Expr → Prop
  | self (x : Expr) : Reaches T e x x
  | operand {op : UnaryOp} {x y : Expr} (h : Reaches T e x y) : Reaches T e (.unary op x) y
  | left {op : BinaryOp} {l r y : Expr} (h : Reaches T e l y) : Reaches T e (.binary op l r) y
  | right {op : BinaryOp} {l r y : Expr} (hl : l.Passes T e op) (h : Reaches T e r y) :
    Reaches T e (.binary op l r) y
  | target {how : Matching} {x p y : Expr} (h : Reaches T e x y) :
    Reaches T e (.matching how x p) y
  | pattern {how : Matching} {x p y : Expr} (hx : ∃ v, x.eval T e = .ok v) (h : Reaches T e p y) :
    Reaches T e (.matching how x p) y
  | sought {x y : Expr} {values : List Value} (h : Reaches T e x y) :
    Reaches T e (.among x values) y

/-- The tree is an operator on integers that overflows on those its operands have for values. -/
def Overflows (T : EntityType) (e : Entity) : Expr → Prop
  | unary .negate x => ∃ i : Int64, x.eval T e = .ok (.int i) ∧ ¬ InRange (-i.toInt)
  | binary op l r => ∃ i j : Int64, l.eval T e = .ok (.int i) ∧ r.eval T e = .ok (.int j) ∧
      op.isInteger ∧ op.Overflows i.toInt j.toInt
  | _ => False

end Expr

/-! ### Operators -/

lemma BinaryOp.IsComparison.not_isLogical {op : BinaryOp} (hop : op.IsComparison) :
    op.isLogical = false := by
  rcases hop with rfl | rfl | rfl | rfl | rfl | rfl <;> rfl

lemma BinaryOp.not_isLogical_of_isInteger {op : BinaryOp} (hop : op.isInteger) :
    op.isLogical = false := by
  cases op <;> first | rfl | cases hop

lemma BinaryOp.isInteger_of_isBitwise {op : BinaryOp} (hop : op.isBitwise) : op.isInteger := by
  cases op <;> first | rfl | cases hop

/-! ### Values of a type -/

namespace Value

variable {v w : Value} {k : Kind}

lemma inhabits_null (k : Kind) : null.Inhabits k := .inl rfl

lemma inhabits_bool (b : Bool) : (bool b).Inhabits .bool := .inr rfl

lemma inhabits_int (i : Int64) : (int i).Inhabits .integer := .inr rfl

lemma Inhabits.bool_cases (h : v.Inhabits .bool) : v = null ∨ ∃ b, v = bool b := by
  refine h.imp_right fun h => ?_
  cases v <;> cases h
  exact ⟨_, rfl⟩

lemma Inhabits.int_cases (h : v.Inhabits .integer) : v = null ∨ ∃ i, v = int i := by
  refine h.imp_right fun h => ?_
  cases v <;> cases h
  exact ⟨_, rfl⟩

lemma Inhabits.text_cases (h : v.Inhabits .text) : v = null ∨ ∃ s, v = text s := by
  refine h.imp_right fun h => ?_
  cases v <;> cases h
  exact ⟨_, rfl⟩

/-- A truth value is decided on, and a null counts as false. -/
lemma Inhabits.truth_ok (h : v.Inhabits .bool) : ∃ b, v.truth = .ok b := by
  rcases h.bool_cases with rfl | ⟨b, rfl⟩
  · exact ⟨false, rfl⟩
  · exact ⟨b, rfl⟩

/-- Two values of one ordered type compare, if neither is a null. -/
lemma Inhabits.compare_ok (hk : k.IsOrdered) (hv : v.Inhabits k) (hw : w.Inhabits k) :
    v = null ∨ w = null ∨ ∃ o, v.compare? w = some o := by
  rcases hv with hv | hv
  · exact .inl hv
  · rcases hw with hw | hw
    · exact .inr (.inl hw)
    · refine .inr (.inr ?_)
      rcases hk with rfl | rfl | rfl | rfl <;> cases v <;> cases hv <;> cases w <;> cases hw <;>
        exact ⟨_, rfl⟩

lemma Inhabits.equals_ok (hk : k.IsOrdered) (hv : v.Inhabits k) (hw : w.Inhabits k) :
    ∃ b, v.equals w = .ok b := by
  rcases hv.compare_ok hk hw with rfl | rfl | ⟨o, ho⟩
  · cases w <;> exact ⟨_, rfl⟩
  · cases v <;> exact ⟨_, rfl⟩
  · unfold equals
    split
    · exact ⟨_, rfl⟩
    · exact ⟨_, rfl⟩
    · exact ⟨_, rfl⟩
    · rw [ho]
      exact ⟨_, rfl⟩

/-- The comparisons are defined for any two values of one ordered type. -/
lemma Inhabits.comparison_ok {op : BinaryOp} (hop : op.IsComparison) (hk : k.IsOrdered)
    (hv : v.Inhabits k) (hw : w.Inhabits k) : ∃ b, binary op v w = .ok (bool b) := by
  obtain ⟨b, hb⟩ := hv.equals_ok hk hw
  rcases hop with rfl | rfl | rfl | rfl | rfl | rfl
  · exact ⟨b, by rw [binary, hb]; rfl⟩
  · exact ⟨!b, by rw [binary, hb]; rfl⟩
  -- The four orders are one function of how the two values compare.
  all_goals
    rcases hv.compare_ok hk hw with rfl | rfl | ⟨o, ho⟩
    · exact ⟨false, rfl⟩
    · exact ⟨false, by simp [binary, isNull]⟩
    · simp only [binary, ho]
      split
      · exact ⟨_, rfl⟩
      · exact ⟨_, rfl⟩

/-- The other operators leave a null a null. -/
lemma binary_of_isInteger {op : BinaryOp} (hop : op.isInteger) (v w : Value) : binary op v w =
    if v.isNull || w.isNull then .ok null else arithmetic op v w := by
  cases op <;> first | rfl | cases hop

lemma Inhabits.integer_or_overflows {op : BinaryOp} (hop : op.isInteger)
    (hv : v.Inhabits .integer) (hw : w.Inhabits .integer) :
    (∃ u, binary op v w = .ok u ∧ u.Inhabits .integer) ∨
      ∃ i j, v = int i ∧ w = int j ∧ op.Overflows i.toInt j.toInt := by
  rw [binary_of_isInteger hop]
  rcases hv.int_cases with rfl | ⟨i, rfl⟩
  · exact .inl ⟨null, rfl, inhabits_null _⟩
  · rcases hw.int_cases with rfl | ⟨j, rfl⟩
    · exact .inl ⟨null, rfl, inhabits_null _⟩
    · rcases integer_cases hop i j with ⟨⟨r, hr⟩, -⟩ | ⟨-, hover⟩
      · exact .inl ⟨int r, hr, inhabits_int r⟩
      · exact .inr ⟨i, j, rfl, rfl, hover⟩

lemma Inhabits.join_ok (hv : v.Inhabits .text) (hw : w.Inhabits .text) :
    ∃ u, binary .add v w = .ok u ∧ u.Inhabits .text := by
  rcases hv.text_cases with rfl | ⟨s, rfl⟩
  · exact ⟨null, rfl, inhabits_null _⟩
  · rcases hw.text_cases with rfl | ⟨t, rfl⟩
    · exact ⟨null, rfl, inhabits_null _⟩
    · exact ⟨text (s ++ t), rfl, .inr rfl⟩

lemma Inhabits.bitwise_ok {op : BinaryOp} (hop : op.isBitwise) (hv : v.Inhabits .bool)
    (hw : w.Inhabits .bool) : ∃ u, binary op v w = .ok u ∧ u.Inhabits .bool := by
  rw [binary_of_isInteger (BinaryOp.isInteger_of_isBitwise hop)]
  rcases hv.bool_cases with rfl | ⟨a, rfl⟩
  · exact ⟨null, rfl, inhabits_null _⟩
  · rcases hw.bool_cases with rfl | ⟨b, rfl⟩
    · exact ⟨null, rfl, inhabits_null _⟩
    · cases op <;> cases hop
      · exact ⟨_, rfl, inhabits_bool (a && b)⟩
      · exact ⟨_, rfl, inhabits_bool (a || b)⟩
      · exact ⟨_, rfl, inhabits_bool (a ^^ b)⟩

lemma Inhabits.coalesce_ok (hv : v.Inhabits k) (hw : w.Inhabits k) :
    ∃ u, binary .coalesce v w = .ok u ∧ u.Inhabits k := by
  refine ⟨_, rfl, ?_⟩
  split
  · exact hw
  · exact hv

lemma Inhabits.decide_ok (how : Matching) (hv : v.Inhabits .text) (hw : w.Inhabits .text) :
    ∃ b, how.decide v w = .ok (bool b) := by
  rcases hv.text_cases with rfl | ⟨s, rfl⟩
  · exact ⟨false, rfl⟩
  · rcases hw.text_cases with rfl | ⟨t, rfl⟩
    · exact ⟨false, rfl⟩
    · exact ⟨_, rfl⟩

end Value

namespace Expr

variable {T : EntityType} {d : Declaration} {e : Entity} {x y l r : Expr} {k : Kind}

/-! ### Failures -/

/-- The failure of an operand is that of the operator. -/
lemma eval_left_error {op : BinaryOp} {err : Error} (h : l.eval T e = .error err) :
    (binary op l r).eval T e = .error err := by
  cases op <;> simp only [eval, h] <;> rfl

lemma eval_right_error {op : BinaryOp} {err : Error} (hl : l.Passes T e op)
    (h : r.eval T e = .error err) : (binary op l r).eval T e = .error err := by
  rcases hop : op.isLogical with _ | _
  · obtain ⟨heval, hpasses⟩ := eval_of_not_logical (T := T) (e := e) (l := l) (r := r) hop
    obtain ⟨v, hv⟩ : ∃ v, l.eval T e = .ok v := hpasses ▸ hl
    rw [heval, hv, h]
    rfl
  · cases op <;> cases hop
    all_goals
      obtain ⟨v, hv, hb⟩ := except_bind_eq_ok.mp hl
      simp only [eval, hv, hb, h, ok_bind]
      rfl

/-- The failure of a tree that is reached is that of the whole. -/
lemma eval_error_of_reaches {err : Error} (h : x.Reaches T e y) (hy : y.eval T e = .error err) :
    x.eval T e = .error err := by
  induction h with
  | self x => exact hy
  | operand h ih => rw [eval, ih hy]; rfl
  | left h ih => exact eval_left_error (ih hy)
  | right hl h ih => exact eval_right_error hl (ih hy)
  | target h ih => rw [eval, ih hy]; rfl
  | pattern hx h ih =>
    obtain ⟨v, hv⟩ := hx
    rw [eval, hv, ih hy]
    rfl
  | sought h ih => rw [eval, ih hy]; rfl

/-- An integer operator on integers looks at nothing else. -/
lemma eval_integers {op : BinaryOp} {i j : Int64} (hop : op.isInteger)
    (hl : l.eval T e = .ok (.int i)) (hr : r.eval T e = .ok (.int j)) :
    (binary op l r).eval T e = Value.integer op i j := by
  rw [(eval_of_not_logical (BinaryOp.not_isLogical_of_isInteger hop)).1, hl, hr, ok_bind, ok_bind,
    Value.binary_of_isInteger hop]
  rfl

/-- An operator that overflows is refused. -/
lemma eval_of_overflows (h : y.Overflows T e) : ∃ err, y.eval T e = .error err := by
  cases y with
  | unary op x =>
    cases op with
    | negate =>
      obtain ⟨i, hi, hover⟩ := h
      have hnone := fit?_eq_none.mpr hover
      refine ⟨.unsupportedExpression (.negationOverflow i), ?_⟩
      rw [eval, hi, ok_bind, Value.unary, hnone]
      rfl
    | _ => cases h
  | binary op l r =>
    obtain ⟨i, j, hi, hj, hop, hover⟩ := h
    rcases Value.integer_cases hop i j with ⟨-, hfits⟩ | ⟨⟨why, hwhy⟩, -⟩
    · exact absurd hover hfits
    · refine ⟨.unsupportedExpression why, ?_⟩
      rw [eval_integers hop hi hj]
      exact hwhy
  | _ => cases h

/-! ### Soundness -/

/-- The tree has a value of the type, or comes to an operator that overflows. -/
def Lands (T : EntityType) (e : Entity) (x : Expr) (k : Kind) : Prop :=
  (∃ v, x.eval T e = .ok v ∧ v.Inhabits k) ∨ ∃ y, x.Reaches T e y ∧ y.Overflows T e

lemma Lands.unary {op : UnaryOp} {k' : Kind} (hx : Lands T e x k)
    (h : ∀ v, x.eval T e = .ok v → v.Inhabits k →
      (∃ w, Value.unary op v = .ok w ∧ w.Inhabits k') ∨ (Expr.unary op x).Overflows T e) :
    Lands T e (.unary op x) k' := by
  rcases hx with ⟨v, hv, hk⟩ | ⟨y, hy, hover⟩
  · rcases h v hv hk with ⟨w, hw, hk'⟩ | hover
    · exact .inl ⟨w, by rw [eval, hv, ok_bind, hw], hk'⟩
    · exact .inr ⟨_, .self _, hover⟩
  · exact .inr ⟨y, .operand hy, hover⟩

lemma Lands.binary {op : BinaryOp} {k₁ k₂ : Kind} (hop : op.isLogical = false)
    (hl : Lands T e l k₁) (hr : Lands T e r k₂)
    (h : ∀ v w, l.eval T e = .ok v → v.Inhabits k₁ → r.eval T e = .ok w → w.Inhabits k₂ →
      (∃ u, Value.binary op v w = .ok u ∧ u.Inhabits k) ∨ (Expr.binary op l r).Overflows T e) :
    Lands T e (.binary op l r) k := by
  obtain ⟨heval, hpasses⟩ := eval_of_not_logical (T := T) (e := e) (l := l) (r := r) hop
  rcases hl with ⟨v, hv, hvk⟩ | ⟨y, hy, hover⟩
  · rcases hr with ⟨w, hw, hwk⟩ | ⟨y, hy, hover⟩
    · rcases h v w hv hvk hw hwk with ⟨u, hu, huk⟩ | hover
      · exact .inl ⟨u, by rw [heval, hv, hw, ok_bind, ok_bind, hu], huk⟩
      · exact .inr ⟨_, .self _, hover⟩
    · exact .inr ⟨y, .right (hpasses ▸ ⟨v, hv⟩) hy, hover⟩
  · exact .inr ⟨y, .left hy, hover⟩

/-- A connective comes to its right operand only where the left one leaves it open. -/
lemma Lands.logical {op : BinaryOp} (hop : op.isLogical) (hl : Lands T e l .bool)
    (hr : Lands T e r .bool) : Lands T e (.binary op l r) .bool := by
  rcases hl with ⟨v, hv, hvk⟩ | ⟨y, hy, hover⟩
  · obtain ⟨a, ha⟩ := hvk.truth_ok
    have hsatisfied : l.satisfied T e = .ok a := by rw [satisfied, hv, ok_bind, ha]
    have hopen : l.Passes T e op ∨ ∃ b, (Expr.binary op l r).eval T e = .ok (.bool b) := by
      cases op <;> cases hop <;> cases a
      · exact .inr ⟨false, by rw [eval, hv, ok_bind, ha]; rfl⟩
      · exact .inl hsatisfied
      · exact .inl hsatisfied
      · exact .inr ⟨true, by rw [eval, hv, ok_bind, ha]; rfl⟩
    rcases hopen with hpasses | ⟨b, hb⟩
    · rcases hr with ⟨w, hw, hwk⟩ | ⟨y, hy, hover⟩
      · obtain ⟨b, hb⟩ := hwk.truth_ok
        refine .inl ⟨.bool b, ?_, Value.inhabits_bool b⟩
        cases op <;> cases hop
        all_goals
          obtain ⟨u, hu, hopen⟩ := except_bind_eq_ok.mp hpasses
          simp only [eval, hu, hopen, hw, hb, ok_bind]
          rfl
      · exact .inr ⟨y, .right hpasses hy, hover⟩
    · exact .inl ⟨_, hb, Value.inhabits_bool b⟩
  · exact .inr ⟨y, .left hy, hover⟩

/-- A typed tree has a value of its type on an entity of the declaration, or comes to an operator
that overflows. -/
lemma HasType.lands (hx : x.HasType d k) (he : d.Fits e.scalars) : Lands d.type e x k := by
  induction hx with
  | constant hv => exact .inl ⟨_, rfl, hv⟩
  | member hm hv => exact .inl ⟨_, by rw [eval, Captured.member, hm], hv⟩
  | field hf =>
    obtain ⟨v, hv, hshows⟩ := he.shows _ _ hf
    have hread : d.type.read? e _ = some v := hv
    exact .inl ⟨v, by rw [eval, EntityType.read, hread], FieldKind.eq_null_or_kind_eq hshows⟩
  | not hx ih =>
    refine ih.unary fun v hv hk => .inl ?_
    rcases hk.bool_cases with rfl | ⟨b, rfl⟩
    · exact ⟨.null, rfl, Value.inhabits_null _⟩
    · exact ⟨.bool !b, rfl, Value.inhabits_bool _⟩
  | negate hx ih =>
    refine ih.unary fun v hv hk => ?_
    rcases hk.int_cases with rfl | ⟨i, rfl⟩
    · exact .inl ⟨.null, rfl, Value.inhabits_null _⟩
    · rcases hfit : fit? (-i.toInt) with _ | j
      · exact .inr ⟨i, hv, fit?_eq_none.mp hfit⟩
      · exact .inl ⟨.int j, by rw [Value.unary, hfit], Value.inhabits_int j⟩
  | bitNot hx ih =>
    refine ih.unary fun v hv hk => .inl ?_
    rcases hk.int_cases with rfl | ⟨i, rfl⟩
    · exact ⟨.null, rfl, Value.inhabits_null _⟩
    · exact ⟨.int (~~~i), rfl, Value.inhabits_int _⟩
  | logical hop hl hr ihl ihr => exact .logical hop ihl ihr
  | comparison hop hk hl hr ihl ihr =>
    refine .binary hop.not_isLogical ihl ihr fun v w hv hvk hw hwk => .inl ?_
    obtain ⟨b, hb⟩ := hvk.comparison_ok hop hk hwk
    exact ⟨.bool b, hb, Value.inhabits_bool b⟩
  | coalesce hk hl hr ihl ihr =>
    exact .binary rfl ihl ihr fun v w hv hvk hw hwk => .inl (hvk.coalesce_ok hwk)
  | @integer op l r hop hl hr ihl ihr =>
    refine .binary (BinaryOp.not_isLogical_of_isInteger hop) ihl ihr fun v w hv hvk hw hwk => ?_
    rcases hvk.integer_or_overflows hop hwk with hok | ⟨i, j, rfl, rfl, hover⟩
    · exact .inl hok
    · exact .inr ⟨i, j, hv, hw, hop, hover⟩
  | join hl hr ihl ihr =>
    exact .binary rfl ihl ihr fun v w hv hvk hw hwk => .inl (hvk.join_ok hwk)
  | bitwise hop hl hr ihl ihr =>
    have hlogical := BinaryOp.not_isLogical_of_isInteger (BinaryOp.isInteger_of_isBitwise hop)
    exact .binary hlogical ihl ihr fun v w hv hvk hw hwk => .inl (hvk.bitwise_ok hop hwk)
  | @matching how x p hx hp ihx ihp =>
    rcases ihx with ⟨v, hv, hvk⟩ | ⟨y, hy, hover⟩
    · rcases ihp with ⟨w, hw, hwk⟩ | ⟨y, hy, hover⟩
      · obtain ⟨b, hb⟩ := hvk.decide_ok how hwk
        exact .inl ⟨.bool b, by rw [eval, hv, hw, ok_bind, ok_bind, hb], Value.inhabits_bool b⟩
      · exact .inr ⟨y, .pattern ⟨v, hv⟩ hy, hover⟩
    · exact .inr ⟨y, .target hy, hover⟩
  | @among x k values hx ih =>
    rcases ih with ⟨v, hv, -⟩ | ⟨y, hy, hover⟩
    · exact .inl ⟨.bool (v.isAmong values), by rw [eval, hv]; rfl, Value.inhabits_bool _⟩
    · exact .inr ⟨y, .sought hy, hover⟩

/-- The parts of a typed tree are typed. -/
lemma HasType.part (hx : x.HasType d k) (hy : x.HasPart y) : ∃ k', y.HasType d k' := by
  induction hy generalizing k with
  | self x => exact ⟨k, hx⟩
  | operand h ih => cases hx <;> exact ih ‹_›
  | left h ih => cases hx <;> exact ih ‹_›
  | right h ih => cases hx <;> exact ih ‹_›
  | target h ih => cases hx; exact ih ‹_›
  | pattern h ih => cases hx; exact ih ‹_›
  | sought h ih => cases hx; exact ih ‹_›

/-- What a typed tree comes to is a null or a value of its type. -/
lemma HasType.inhabits (hx : x.HasType d k) (he : d.Fits e.scalars) {v : Value}
    (hv : x.eval d.type e = .ok v) : v.Inhabits k := by
  rcases hx.lands he with ⟨w, hw, hk⟩ | ⟨y, hy, hover⟩
  · obtain rfl : v = w := by simpa [hv] using hw
    exact hk
  · obtain ⟨err, herr⟩ := eval_of_overflows hover
    have hfail := eval_error_of_reaches hy herr
    simp [hv] at hfail

/-- A typed condition is decided exactly on the entities of the declaration where evaluation comes
to no operator on integers that overflows; and each part of the tree has a type, and comes to nulls
and values of that type only. -/
theorem satisfied_ok_iff_of_hasType (hx : x.HasType d .bool) (he : d.Fits e.scalars) :
    ((∃ b, x.satisfied d.type e = .ok b) ↔
        ∀ y, x.Reaches d.type e y → ¬ y.Overflows d.type e) ∧
      ∀ y, x.HasPart y → (∃ k, y.HasType d k) ∧
        ∀ k v, y.HasType d k → y.eval d.type e = .ok v → v.Inhabits k := by
  refine ⟨⟨?_, ?_⟩, ?_⟩
  · rintro ⟨b, hb⟩ y hy hover
    obtain ⟨err, herr⟩ := eval_of_overflows hover
    rw [satisfied, eval_error_of_reaches hy herr] at hb
    cases hb
  · intro hsafe
    rcases hx.lands he with ⟨v, hv, hk⟩ | ⟨y, hy, hover⟩
    · obtain ⟨b, hb⟩ := hk.truth_ok
      exact ⟨b, by rw [satisfied, hv, ok_bind, hb]⟩
    · exact absurd hover (hsafe y hy)
  · intro y hy
    exact ⟨hx.part hy, fun k v hk hv => hk.inhabits he hv⟩

end Expr

namespace Club

/-- The age in shares, one share for each member that joined before. -/
def share : Expr :=
  .binary .div (.field "age") (.binary .sub (.field "memberId") (.constant (.int 7)))

/-- Of a share above three. -/
def favoured : Expr := .binary .gt share (.constant (.int 3))

lemma share_typed : share.HasType member .integer :=
  have age : (Expr.field "age").HasType member .integer := .field (f := .int32) rfl
  have memberId : (Expr.field "memberId").HasType member .integer := .field (f := .int32) rfl
  .integer rfl age (.integer rfl memberId (.constant (.inr rfl)))

lemma favoured_typed : favoured.HasType member .bool :=
  .comparison (.inr (.inr (.inl rfl))) (.inr (.inl rfl)) share_typed (.constant (.inr rfl))

/-- Nobody joined before the first member, and the division by zero is why the condition is
refused. -/
theorem bob_overflows : (∃ y, favoured.Reaches member.type bob y ∧ y.Overflows member.type bob) ∧
    ∀ v, share.eval member.type bob = .ok v → v.Inhabits .integer := by
  obtain ⟨hiff, hparts⟩ := Expr.satisfied_ok_iff_of_hasType favoured_typed bob_fits
  have hrefused : ∀ b, favoured.satisfied member.type bob ≠ .ok b := by
    intro b h
    have herror : favoured.satisfied member.type bob =
      refuse (.divisionByZero "40" "Div" "0") := by rfl
    rw [herror] at h
    cases h
  refine ⟨?_, fun v hv => (hparts share (.left (.self _))).2 _ v share_typed hv⟩
  by_contra hnone
  obtain ⟨b, hb⟩ := hiff.mpr fun y hy hover => hnone ⟨y, hy, hover⟩
  exact hrefused b hb

end Club

end EntityStore
