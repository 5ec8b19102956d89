import EntityStore.Proofs.Agreement

/-!
Which trees have a truth value where one is called for. The compiler checks the leaves that stand in
such positions, and of the operators in them only that they can be written; evaluation checks the
values. So a compiled tree can still be denied its truth, by an arithmetic operator that stands
where a truth value is called for, and by nothing else.
-/

namespace EntityStore

open Sql

/-- Arithmetic that can be written in a condition. -/
def BinaryOp.isArithmetic : BinaryOp → Bool
  | add | sub | mul | div | rem | bitAnd | bitOr | bitXor => true
  | _ => false

/-- The tree computes a number, or bits of one, from its operands. -/
def Expr.isArithmetic : Expr → Bool
  | unary op _ => op == .negate
  | binary op _ _ => op.isArithmetic
  | _ => false

/-- Values of the kind have a truth. -/
def Kind.IsTruth (k : Kind) : Prop := k = .bool ∨ k = .null

instance (k : Kind) : Decidable k.IsTruth := inferInstanceAs (Decidable (_ ∨ _))

namespace Expr

/-- Evaluation of a binary operator goes on to the right operand after the left one. -/
def Passes (T : EntityType) (e : Entity) (op : BinaryOp) (l : Expr) : Prop :=
  match op with
  | .and => l.satisfied T e = .ok true
  | .or => l.satisfied T e = .ok false
  | _ => ∃ v, l.eval T e = .ok v

/-- Evaluation of the first tree asks for the truth of the second one, which is a part of it. -/
def Asks (T : EntityType) (e : Entity) : Expr → Expr → Prop
  | unary op x, y => op = .not ∧ y = x ∨ x.Asks T e y
  | binary op l r, y => op.isLogical ∧ y = l ∨ l.Asks T e y ∨
      l.Passes T e op ∧ (op.isLogical ∧ y = r ∨ r.Asks T e y)
  | matching _ x p, y => x.Asks T e y ∨ (∃ v, x.eval T e = .ok v) ∧ p.Asks T e y
  | among x _, y => x.Asks T e y
  | _, _ => False

end Expr

/-! ### Comparisons -/

lemma Value.equals_cases (v w : Value) :
    (∃ b, equals v w = .ok b) ∨ equals v w = undefined .eq v w := by
  unfold equals
  split
  · exact .inl ⟨_, rfl⟩
  · exact .inl ⟨_, rfl⟩
  · exact .inl ⟨_, rfl⟩
  · split
    · exact .inl ⟨_, rfl⟩
    · exact .inr rfl

/-- Two values compare to a bool, or the comparison is not defined for them. -/
lemma comparison_cases {op : BinaryOp} (hop : op.IsComparison) (v w : Value) :
    (∃ b, Value.binary op v w = .ok (.bool b)) ∨
      ∃ op', Value.binary op v w = Value.undefined op' v w := by
  rcases hop with rfl | rfl | rfl | rfl | rfl | rfl
  · rcases Value.equals_cases v w with ⟨b, hb⟩ | hb <;> rw [Value.binary, hb]
    · exact .inl ⟨_, rfl⟩
    · exact .inr ⟨_, rfl⟩
  · rcases Value.equals_cases v w with ⟨b, hb⟩ | hb <;> rw [Value.binary, hb]
    · exact .inl ⟨_, rfl⟩
    · exact .inr ⟨_, rfl⟩
  all_goals
    simp only [Value.binary]
    split
    · exact .inl ⟨_, rfl⟩
    · split
      · exact .inl ⟨_, rfl⟩
      · exact .inr ⟨_, rfl⟩

/-! ### Refusals -/

/-- Refused because a value of the kind was found where a truth value is called for. -/
def Denied {α : Type} (k : Kind) (r : Except Error α) : Prop :=
  r = refuse (.valueNotTruth k) ∨ r = refuse (.unaryUndefined UnaryOp.not.name k)

section Denied

variable {α β : Type} {k : Kind} {v w : Value}

@[simp] lemma denied_error {err : Error} : Denied k (.error err : Except Error α) ↔
    err = .unsupportedExpression (.valueNotTruth k) ∨
      err = .unsupportedExpression (.unaryUndefined "Not" k) := by
  simp [Denied, refuse, UnaryOp.name]

@[simp] lemma denied_refuse {why : Refusal} : Denied k (refuse why : Except Error α) ↔
    why = .valueNotTruth k ∨ why = .unaryUndefined "Not" k := by
  simp [refuse]

@[simp] lemma not_denied_ok (a : α) : ¬ Denied k (.ok a : Except Error α) := by
  simp [Denied, refuse]

@[simp] lemma not_denied_pure (a : α) : ¬ Denied k (pure a : Except Error α) := not_denied_ok a

lemma denied_bind {r : Except Error α} {f : α → Except Error β} :
    Denied k (r >>= f) ↔ Denied k r ∨ ∃ a, r = .ok a ∧ Denied k (f a) := by
  rcases r with err | a
  · have herror : ((.error err : Except Error α) >>= f) = .error err := rfl
    simp [herror]
  · simp [ok_bind]

@[simp] lemma denied_map {r : Except Error α} (f : α → β) : Denied k (f <$> r) ↔ Denied k r := by
  cases r <;> simp

/-- A value is denied its truth if it is of no kind that has one. -/
lemma denied_truth : Denied k v.truth ↔ v.kind = k ∧ ¬ k.IsTruth := by
  cases v with
  | null | bool b => simp +contextual [Value.truth, Value.kind, Kind.IsTruth, eq_comm (b := k)]
  | _ =>
    simp only [Value.truth, Value.kind, denied_refuse]
    constructor
    · rintro (h | h) <;> cases h
      exact ⟨rfl, by decide⟩
    · rintro ⟨rfl, -⟩
      exact .inl rfl

/-- Of the unary operators only the negation of truth values asks for one. -/
lemma denied_unary {op : UnaryOp} :
    Denied k (Value.unary op v) ↔ op = .not ∧ v.kind = k ∧ ¬ k.IsTruth := by
  cases op with
  | not =>
    cases v with
    | null | bool b => simp +contextual [Value.unary, Value.kind, Kind.IsTruth, eq_comm (b := k)]
    | _ =>
      simp only [Value.unary, Value.kind, denied_refuse, UnaryOp.name]
      constructor
      · rintro (h | h) <;> cases h
        exact ⟨trivial, rfl, by decide⟩
      · rintro ⟨-, rfl, -⟩
        exact .inr rfl
  | negate =>
    cases v with
    | int i =>
      simp only [Value.unary]
      split <;> simp
    | _ => simp [Value.unary, UnaryOp.name]
  | bitNot => cases v <;> simp [Value.unary, UnaryOp.name]

lemma not_denied_undefined {op : BinaryOp} :
    ¬ Denied k (Value.undefined op v w : Except Error α) := by
  simp [Value.undefined]

lemma not_denied_integer (op : BinaryOp) (i j : Int64) : ¬ Denied k (Value.integer op i j) := by
  unfold Value.integer
  split
  · simp
  · split <;> simp

lemma not_denied_floating (op : BinaryOp) (x y : Float) : ¬ Denied k (Value.floating op x y) := by
  unfold Value.floating
  split <;> (try split) <;> simp [Value.undefined]

lemma not_denied_arithmetic (op : BinaryOp) (v w : Value) :
    ¬ Denied k (Value.arithmetic op v w) := by
  unfold Value.arithmetic
  split
  · exact not_denied_integer _ _ _
  · exact not_denied_floating _ _ _
  · exact not_denied_floating _ _ _
  · exact not_denied_floating _ _ _
  · split <;> simp [Value.undefined]
  · split <;> simp [Value.undefined]
  · exact not_denied_undefined

lemma not_denied_comparison {op : BinaryOp} (hop : op.IsComparison) (v w : Value) :
    ¬ Denied k (Value.binary op v w) := by
  rcases comparison_cases hop v w with ⟨b, hb⟩ | ⟨op', hop'⟩
  · rw [hb]; exact not_denied_ok _
  · rw [hop']; exact not_denied_undefined

/-- No binary operator that looks at both its operands asks for the truth of one. -/
lemma not_denied_binary (op : BinaryOp) (v w : Value) : ¬ Denied k (Value.binary op v w) := by
  cases op with
  | eq | ne | gt | ge | lt | le => exact not_denied_comparison (by simp [BinaryOp.IsComparison]) v w
  | coalesce => exact not_denied_ok _
  | _ =>
    simp only [Value.binary]
    split
    · exact not_denied_ok _
    · exact not_denied_arithmetic _ _ _

lemma not_denied_decide (how : Matching) (v w : Value) : ¬ Denied k (how.decide v w) := by
  unfold Matching.decide
  split
  · simp
  · split <;> simp

end Denied

/-! ### What evaluation asks for -/

namespace Expr

variable {T : EntityType} {e : Entity} {k : Kind} {x l r : Expr}

/-- The tree has a value, of a kind without a truth. -/
def LacksTruth (T : EntityType) (e : Entity) (k : Kind) (x : Expr) : Prop :=
  ∃ v, x.eval T e = .ok v ∧ v.kind = k ∧ ¬ k.IsTruth

lemma denied_satisfied :
    Denied k (x.satisfied T e) ↔ x.LacksTruth T e k ∨ Denied k (x.eval T e) := by
  simp only [satisfied, denied_bind, denied_truth, LacksTruth]
  exact or_comm

/-- The right operand of a conjunction is decided only where the left one holds. -/
lemma eval_and : (binary .and l r).eval T e = (do
    if ← l.satisfied T e then return .bool (← r.satisfied T e) else return .bool false) := by
  simp only [eval, satisfied, bind_assoc]

/-- The right operand of a disjunction is decided only where the left one does not hold. -/
lemma eval_or : (binary .or l r).eval T e = (do
    if ← l.satisfied T e then return .bool true else return .bool (← r.satisfied T e)) := by
  simp only [eval, satisfied, bind_assoc]

lemma denied_and : Denied k ((binary .and l r).eval T e) ↔
    Denied k (l.satisfied T e) ∨ l.satisfied T e = .ok true ∧ Denied k (r.satisfied T e) := by
  simp [eval_and, denied_bind]

lemma denied_or : Denied k ((binary .or l r).eval T e) ↔
    Denied k (l.satisfied T e) ∨ l.satisfied T e = .ok false ∧ Denied k (r.satisfied T e) := by
  simp [eval_or, denied_bind]

/-- The operators that are not logical evaluate both operands, one after the other. -/
lemma eval_of_not_logical {op : BinaryOp} (hop : op.isLogical = false) :
    (binary op l r).eval T e = (do
        let v ← l.eval T e
        let w ← r.eval T e
        Value.binary op v w) ∧ l.Passes T e op = ∃ v, l.eval T e = .ok v := by
  cases op <;> first | exact ⟨rfl, rfl⟩ | cases hop

/-- And they ask for the truth of neither. -/
lemma denied_of_not_logical {op : BinaryOp} (hop : op.isLogical = false) :
    Denied k ((binary op l r).eval T e) ↔
      Denied k (l.eval T e) ∨ l.Passes T e op ∧ Denied k (r.eval T e) := by
  obtain ⟨heval, hpasses⟩ := eval_of_not_logical (T := T) (e := e) (l := l) (r := r) hop
  rw [heval, hpasses]
  simp [denied_bind, not_denied_binary]

lemma denied_binary {op : BinaryOp} : Denied k ((binary op l r).eval T e) ↔
    op.isLogical ∧ l.LacksTruth T e k ∨ Denied k (l.eval T e) ∨
      l.Passes T e op ∧ (op.isLogical ∧ r.LacksTruth T e k ∨ Denied k (r.eval T e)) := by
  rcases hop : op.isLogical with _ | _
  · rw [denied_of_not_logical hop]
    simp
  · cases op <;> cases hop
    · rw [denied_and, denied_satisfied, denied_satisfied]
      simp [Passes, or_assoc]
    · rw [denied_or, denied_satisfied, denied_satisfied]
      simp [Passes, or_assoc]

/-- Evaluation is denied a truth just where it asks for the truth of a tree whose value has none.
The induction follows the tree, and the cases the order of evaluation. -/
lemma denied_eval : Denied k (x.eval T e) ↔ ∃ y, x.Asks T e y ∧ y.LacksTruth T e k := by
  induction x with
  | constant v => simp [eval, Asks]
  | field name =>
    rw [eval, EntityType.read]
    split <;> simp [Asks]
  | member record name =>
    rw [eval, Captured.member]
    split <;> simp [Asks]
  | unary op x ih =>
    have hop : Denied k ((unary op x).eval T e) ↔
        op = .not ∧ x.LacksTruth T e k ∨ Denied k (x.eval T e) := by
      simp only [eval, denied_bind, denied_unary, LacksTruth]
      grind
    rw [hop, ih]
    simp only [Asks, or_and_right, exists_or, and_assoc, exists_and_left, exists_eq_left]
  | binary op l r ihl ihr =>
    rw [denied_binary, ihl, ihr]
    simp only [Asks, or_and_right, exists_or, and_assoc, exists_and_left, exists_eq_left]
  | matching how x p ihx ihp =>
    have hvalue : Denied k ((matching how x p).eval T e) ↔
        Denied k (x.eval T e) ∨ (∃ v, x.eval T e = .ok v) ∧ Denied k (p.eval T e) := by
      simp [eval, denied_bind, not_denied_decide]
    rw [hvalue, ihx, ihp]
    simp only [Asks, or_and_right, exists_or, and_assoc, exists_and_left]
  | among x values ih =>
    have hvalue : Denied k ((among x values).eval T e) ↔ Denied k (x.eval T e) := by simp [eval]
    rw [hvalue, ih]
    rfl

end Expr

/-! ### What the compiler admits -/

namespace Sql.Compiled

variable {d : Declaration} {q : Dialect} {T : EntityType} {e : Entity} {x y : Expr} {n : Nat}
  {truth : Bool} {c : Compiled}

/-- Whatever evaluation asks for the truth of is compiled where a truth value is called for. -/
lemma admits_of_asks (h : ofExpr q T x truth n = .ok c) (hy : x.Asks T e y) :
    ∃ n' c', ofExpr q T y true n' = .ok c' := by
  induction x generalizing truth n c with
  | constant v => cases hy
  | field name => cases hy
  | member record name => cases hy
  | unary op x ih =>
    obtain ⟨sign, -, h⟩ := except_bind_eq_ok.mp h
    obtain ⟨cx, hx, h⟩ := except_bind_eq_ok.mp h
    rcases hy with ⟨rfl, rfl⟩ | hy
    · exact ⟨n, cx, hx⟩
    · exact ih hx hy
  | binary op l r ihl ihr =>
    obtain ⟨i, -, h⟩ := except_bind_eq_ok.mp h
    obtain ⟨cl, hl, h⟩ := except_bind_eq_ok.mp h
    obtain ⟨cr, hr, h⟩ := except_bind_eq_ok.mp h
    rcases hy with ⟨hop, rfl⟩ | hy | ⟨-, ⟨hop, rfl⟩ | hy⟩
    · exact ⟨n, cl, hop ▸ hl⟩
    · exact ihl hl hy
    · exact ⟨_, cr, hop ▸ hr⟩
    · exact ihr hr hy
  | matching how x p ihx _ =>
    obtain ⟨cx, hx, h⟩ := except_bind_eq_ok.mp h
    obtain ⟨v, hv, -⟩ := except_bind_eq_ok.mp h
    rcases hy with hy | ⟨-, hy⟩
    · exact ihx hx hy
    · cases p with
      | constant v => cases hy
      | member record name => cases hy
      | _ => cases hv
  | among x values ih =>
    obtain ⟨cx, hx, -⟩ := except_bind_eq_ok.mp h
    exact ih hx hy

/-- A field of bools shows bools, or a null if it is optional. -/
lemma isTruth_of_shows {k : FieldKind} {v : Value} (hk : k.type.scalar = .bool) (hv : k.Shows v) :
    v.kind.IsTruth := by
  obtain ⟨c, rfl⟩ := hv
  induction k with
  | bool => exact .inl rfl
  | optional k ih =>
    rcases c with _ | c
    · exact .inr rfl
    · exact ih hk c
  | _ => cases hk

lemma isTruth_of_ofValue {v : Value} (h : ofValue v true n = .ok c) : v.kind.IsTruth := by
  cases v with
  | bool b => exact .inl rfl
  | _ => cases h

lemma isTruth_of_ofField {name : String} (h : ofField q d.type name true n = .ok c)
    (he : d.Fits e.scalars) {v : Value} (hv : d.type.read e name = .ok v) : v.kind.IsTruth := by
  unfold ofField at h
  rw [Declaration.field?_type] at h
  rcases hk : d.fields.lookup name with _ | k
  · rw [hk] at h
    simp only [Option.map_none] at h
    split at h <;> cases h
  · rw [hk] at h
    simp only [Option.map_some, Bool.not_true, Bool.false_eq_true, if_false] at h
    split at h
    · cases h
    · rename_i hbool
      obtain ⟨w, hw, hshows⟩ := he.shows name k hk
      have hread : d.type.read e name = .ok w := by
        have hread? : d.type.read? e name = some w := hw
        rw [EntityType.read, hread?]
      cases hread.symm.trans hv
      exact isTruth_of_shows (not_not.mp hbool) hshows

lemma isTruth_of_not {v w : Value} (h : Value.unary .not v = .ok w) : w.kind.IsTruth := by
  cases v with
  | null => cases h; exact .inr rfl
  | bool b => cases h; exact .inl rfl
  | _ => cases h

lemma isTruth_of_comparison {op : BinaryOp} (hop : op.IsComparison) {v w u : Value}
    (h : Value.binary op v w = .ok u) : u.kind.IsTruth := by
  rcases comparison_cases hop v w with ⟨b, hb⟩ | ⟨op', hop'⟩
  · cases hb.symm.trans h
    exact .inl rfl
  · cases hop'.symm.trans h

lemma isTruth_of_logical {op : BinaryOp} (hop : op.isLogical) {l r : Expr} {v : Value}
    (h : (Expr.binary op l r).eval T e = .ok v) : v.kind.IsTruth := by
  obtain ⟨b, rfl⟩ : ∃ b, v = .bool b := by
    cases op <;> cases hop
    all_goals
      obtain ⟨a, -, h⟩ := except_bind_eq_ok.mp h
      obtain ⟨b, -, h⟩ := except_bind_eq_ok.mp h
      split at h
    · obtain ⟨c, -, h⟩ := except_bind_eq_ok.mp h
      obtain ⟨b', -, h⟩ := except_bind_eq_ok.mp h
      exact ⟨b', (Except.ok.inj h).symm⟩
    · exact ⟨false, (Except.ok.inj h).symm⟩
    · exact ⟨true, (Except.ok.inj h).symm⟩
    · obtain ⟨c, -, h⟩ := except_bind_eq_ok.mp h
      obtain ⟨b', -, h⟩ := except_bind_eq_ok.mp h
      exact ⟨b', (Except.ok.inj h).symm⟩
  exact .inl rfl

/-- The binary operators that can be written are logical, comparisons and arithmetic. -/
lemma logical_or_comparison {op : BinaryOp} {i : Infix} (h : infixOf op = .ok i)
    (hop : op.isArithmetic = false) : op.isLogical ∨ op.IsComparison := by
  revert hop
  cases op <;> cases h <;>
    simp [BinaryOp.isLogical, BinaryOp.IsComparison, BinaryOp.isArithmetic]

lemma isTruth_of_decide {how : Matching} {v w u : Value} (h : how.decide v w = .ok u) :
    u.kind.IsTruth := by
  unfold Matching.decide at h
  split at h
  · cases h; exact .inl rfl
  · split at h <;> cases h
    exact .inl rfl

/-- A tree that is admitted where a truth value is called for, and is not arithmetic, has a value
with a truth. -/
lemma isTruth_of_admits (h : ofExpr q d.type x true n = .ok c) (he : d.Fits e.scalars)
    (hx : x.isArithmetic = false) {v : Value} (hv : x.eval d.type e = .ok v) : v.kind.IsTruth := by
  cases x with
  | constant w => cases hv; exact isTruth_of_ofValue h
  | field name => exact isTruth_of_ofField h he hv
  | member record name =>
    obtain ⟨w, hw, h⟩ := except_bind_eq_ok.mp h
    cases hw.symm.trans hv
    exact isTruth_of_ofValue h
  | unary op x =>
    obtain ⟨sign, hsign, -⟩ := except_bind_eq_ok.mp h
    obtain ⟨w, -, hv⟩ := except_bind_eq_ok.mp hv
    cases op with
    | not => exact isTruth_of_not hv
    | negate => cases hx
    | bitNot => cases hsign
  | binary op l r =>
    obtain ⟨i, hi, -⟩ := except_bind_eq_ok.mp h
    rcases logical_or_comparison hi hx with hop | hop
    · exact isTruth_of_logical hop hv
    · rw [Expr.eval_comparison hop] at hv
      obtain ⟨a, -, hv⟩ := except_bind_eq_ok.mp hv
      obtain ⟨b, -, hv⟩ := except_bind_eq_ok.mp hv
      exact isTruth_of_comparison hop hv
  | matching how x p =>
    obtain ⟨w, -, hv⟩ := except_bind_eq_ok.mp hv
    obtain ⟨u, -, hv⟩ := except_bind_eq_ok.mp hv
    exact isTruth_of_decide hv
  | among x values =>
    obtain ⟨w, -, hv⟩ := except_bind_eq_ok.mp hv
    cases hv
    exact .inl rfl

end Sql.Compiled

variable {d : Declaration} {q : Dialect} {x : Expr} {f : Fragment} {e : Entity}

/-- **Only arithmetic is admitted without a truth.** Of the trees that evaluation asks for the truth
of, the whole first, those that are not arithmetic have a bool for their value, or a null. So
evaluation is refused for want of a truth exactly where it asks for that of arithmetic, and the kind
named is that of the result. -/
theorem compiled_denied (h : compile q d.type x = .ok f) (he : d.Fits e.scalars) (k : Kind) :
    (Denied k (x.satisfied d.type e) ↔ ∃ y v, (y = x ∨ x.Asks d.type e y) ∧ y.isArithmetic ∧
      y.eval d.type e = .ok v ∧ v.kind = k ∧ ¬ k.IsTruth) ∧
    ∀ y v, (y = x ∨ x.Asks d.type e y) → y.isArithmetic = false → y.eval d.type e = .ok v →
      v.kind.IsTruth := by
  obtain ⟨c, hc⟩ : ∃ c, Compiled.ofExpr q d.type x true 0 = .ok c := by
    rcases hc : Compiled.ofExpr q d.type x true 0 with err | c
    · rw [compile, hc] at h; cases h
    · exact ⟨c, rfl⟩
  have htruth : ∀ y v, (y = x ∨ x.Asks d.type e y) → y.isArithmetic = false →
      y.eval d.type e = .ok v → v.kind.IsTruth := by
    rintro y v (rfl | hy) harith hv
    · exact Compiled.isTruth_of_admits hc he harith hv
    · obtain ⟨n', c', hc'⟩ := Compiled.admits_of_asks hc hy
      exact Compiled.isTruth_of_admits hc' he harith hv
  refine ⟨?_, htruth⟩
  have hwhere : Denied k (x.satisfied d.type e) ↔
      ∃ y, (y = x ∨ x.Asks d.type e y) ∧ y.LacksTruth d.type e k := by
    rw [Expr.denied_satisfied, Expr.denied_eval]
    simp only [or_and_right, exists_or, exists_eq_left]
  rw [hwhere]
  constructor
  · rintro ⟨y, hy, v, hv, rfl, hk⟩
    refine ⟨y, v, hy, ?_, hv, rfl, hk⟩
    by_contra harith
    exact hk (htruth y v hy (by simpa using harith) hv)
  · rintro ⟨y, v, hy, -, hv, rfl, hk⟩
    exact ⟨y, hy, v, hv, rfl, hk⟩

namespace Club

/-- Active, or of an age that is taken for a truth value. -/
def aged : Expr := .binary .or (.field "active") (.unary .negate (.field "age"))

theorem aged_denied : ∃ f, compile .sqlServer member.type aged = .ok f ∧
    f.text = "(([active] = @0) OR (- [age]))" ∧
    Denied .integer (aged.satisfied member.type bob) := by
  obtain ⟨f, hf, htext⟩ : ∃ f, compile .sqlServer member.type aged = .ok f ∧
      f.text = "(([active] = @0) OR (- [age]))" := ⟨_, rfl, rfl⟩
  have hasks : aged.Asks member.type bob (.unary .negate (.field "age")) :=
    .inr (.inr ⟨rfl, .inl ⟨rfl, rfl⟩⟩)
  refine ⟨f, hf, htext, (compiled_denied hf bob_fits .integer).1.mpr ?_⟩
  exact ⟨_, .int (-40), .inr hasks, rfl, rfl, rfl, by decide⟩

/-- A negated number is compiled where a truth value is called for; to evaluate it is refused. -/
theorem negation_admitted : ∃ f,
    compile .sqlServer member.type (.unary .negate (.field "memberId")) = .ok f ∧
    f.text = "(- [memberId])" ∧ member.Fits bob.scalars ∧
    (Expr.unary .negate (.field "memberId")).satisfied member.type bob =
      refuse (.valueNotTruth .integer) :=
  ⟨_, rfl, rfl, bob_fits, rfl⟩

end Club

end EntityStore
