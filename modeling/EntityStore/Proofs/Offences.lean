import EntityStore.Proofs.Triple
import EntityStore.Sql.Compile

/-!
What a predicate is refused for. Whether a node offends depends on what it is and on where it
stands, and on nothing else in the tree. The compiler goes through the nodes in order, an operator
before its operands, and stops at the first that offends: so it succeeds just where none does, and
otherwise gives the error of the first, whatever there is behind it.
-/

namespace EntityStore

open Sql

/-! ### Nodes and their places -/

/-- Where a node stands in a tree. -/
inductive Place where
  /-- As an operand or as the whole; `truth` says whether a truth value is called for. -/
  | operand (truth : Bool)
  /-- As the pattern of a match. -/
  | pattern (how : Matching)

/-- A node in its place. -/
abbrev Node := Place × Expr

namespace Expr

/-- The nodes below the top of a tree, in order: left before right, and the target of a match before
its pattern. What a pattern is made of does not count. -/
def parts : Expr → List Node
  | constant _ | field _ | member _ _ => []
  | unary op x => (.operand (op == .not), x) :: x.parts
  | binary op l r =>
    (.operand op.isLogical, l) :: (l.parts ++ (.operand op.isLogical, r) :: r.parts)
  | matching how x p => (.operand false, x) :: (x.parts ++ [(.pattern how, p)])
  | among x _ => (.operand false, x) :: x.parts

/-- The nodes of a predicate, an operator before its operands. -/
def nodes (x : Expr) : List Node := (.operand true, x) :: x.parts

/-- The value that a constant or a member brings. -/
inductive Brings : Expr → Value → Prop
  | constant (v : Value) : (constant v).Brings v
  | member {record : Captured} {name : String} {v : Value} (h : record.member? name = some v) :
      (member record name).Brings v

end Expr

/-- Operators before an operand that can be written. -/
def UnaryOp.isWritten : UnaryOp → Bool
  | bitNot => false
  | _ => true

/-- Operators between operands that can be written. -/
def BinaryOp.isWritten : BinaryOp → Bool
  | power | shiftLeft | shiftRight | coalesce => false
  | _ => true

/-- What is wrong with a node in its place, as the error that is given for it. -/
inductive Offence (d : Dialect) (T : EntityType) : Place → Expr → Error → Prop
  | unary {truth : Bool} {op : UnaryOp} {x : Expr} (h : op.isWritten = false) :
      Offence d T (.operand truth) (.unary op x) (.unsupportedOperator op.name)
  | binary {truth : Bool} {op : BinaryOp} {l r : Expr} (h : op.isWritten = false) :
      Offence d T (.operand truth) (.binary op l r) (.unsupportedOperator op.name)
  /-- A value that is no bool where a truth value is called for. -/
  | value {x : Expr} {v : Value} (hx : x.Brings v) (h : v.kind ≠ .bool) :
      Offence d T (.operand true) x (.unsupportedExpression (.constantNotTruth v.kind))
  /-- A member that the record does not have, wherever it stands. -/
  | missing {place : Place} {record : Captured} {name : String} (h : record.member? name = none) :
      Offence d T place (.member record name) (.unknownField record.typeName name)
  | undeclared {truth : Bool} {name : String} (h : T.field? name = none)
      (hn : name ∉ T.navigations.map Navigation.name) :
      Offence d T (.operand truth) (.field name) (.unknownField T.name name)
  | navigation {truth : Bool} {name : String} (h : T.field? name = none)
      (hn : name ∈ T.navigations.map Navigation.name) :
      Offence d T (.operand truth) (.field name)
        (.unsupportedExpression (.navigationQueried name T.name))
  /-- A field of no bools where a truth value is called for. -/
  | column {name : String} {f : Field} (h : T.field? name = some f) (hf : f.type.scalar ≠ .bool) :
      Offence d T (.operand true) (.field name)
        (.unsupportedExpression (.columnNotTruth (d.quote name)))
  /-- A pattern that is neither a constant nor a member. -/
  | node {how : Matching} {x : Expr} (hc : ∀ v, x ≠ .constant v)
      (hm : ∀ record name, x ≠ .member record name) :
      Offence d T (.pattern how) x (.unsupportedExpression (.nodeNotPattern x.nodeName how.name))
  /-- A pattern whose value is neither a text nor null. -/
  | pattern {how : Matching} {x : Expr} {v : Value} (hx : x.Brings v)
      (h : v.kind ≠ .text ∧ v.kind ≠ .null) :
      Offence d T (.pattern how) x (.unsupportedExpression (.valueNotPattern v.kind))

/-- Nothing is wrong with the node. -/
def Node.Clean (d : Dialect) (T : EntityType) (p : Node) : Prop := ∀ err, ¬ Offence d T p.1 p.2 err

/-! ### The look at a node -/

section Check

variable {d : Dialect} {T : EntityType} {place : Place} {x : Expr} {v : Value} {name : String}
  {truth : Bool} {err : Error}

/-- What the compiler looks at when it comes to a node, that is at nothing below it. -/
def Node.check (d : Dialect) (T : EntityType) : Node → Except Error Unit
  | (.operand _, .unary op _) => (fun _ => ()) <$> signOf op
  | (.operand _, .binary op _ _) => (fun _ => ()) <$> infixOf op
  | (.operand truth, .constant v) => (fun _ => ()) <$> Compiled.ofValue v truth 0
  | (.operand truth, .member record name) =>
    (fun _ => ()) <$> (record.member name >>= fun v => Compiled.ofValue v truth 0)
  | (.operand truth, .field name) => (fun _ => ()) <$> Compiled.ofField d T name truth 0
  | (.operand _, .matching _ _ _) | (.operand _, .among _ _) => .ok ()
  | (.pattern how, x) =>
    (fun _ => ()) <$> (Compiled.patternValue how x >>= Compiled.patternParameter how)

lemma map_unit_eq_error {α : Type} {r : Except Error α} :
    ((fun _ => ()) <$> r) = .error err ↔ r = .error err := by
  cases r <;> simp

lemma signOf_eq_error {op : UnaryOp} :
    signOf op = .error err ↔ Offence d T (.operand truth) (.unary op x) err := by
  constructor
  · intro h
    cases op <;> cases h
    exact .unary rfl
  · intro h
    cases h with
    | unary h => cases op <;> cases h; rfl
    | value hx => cases hx

lemma infixOf_eq_error {op : BinaryOp} {l r : Expr} :
    infixOf op = .error err ↔ Offence d T (.operand truth) (.binary op l r) err := by
  constructor
  · intro h
    cases op <;> cases h <;> exact .binary rfl
  · intro h
    cases h with
    | binary h => cases op <;> cases h <;> rfl
    | value hx => cases hx

/-- A value is refused where a truth value is called for and it is no bool. -/
lemma ofValue_eq_error {n : Nat} : Compiled.ofValue v truth n = .error err ↔
    truth = true ∧ v.kind ≠ .bool ∧ err = .unsupportedExpression (.constantNotTruth v.kind) := by
  cases truth with
  | false => simp [Compiled.ofValue]
  | true => cases v <;> simp [Compiled.ofValue, refuse, Value.kind, eq_comm]

lemma ofConstant_eq_error : Compiled.ofValue v truth 0 = .error err ↔
    Offence d T (.operand truth) (.constant v) err := by
  rw [ofValue_eq_error]
  constructor
  · rintro ⟨rfl, h, rfl⟩
    exact .value (.constant v) h
  · intro h
    cases h with
    | value hx h => cases hx; exact ⟨rfl, h, rfl⟩

lemma ofMember_eq_error {record : Captured} :
    (record.member name >>= fun v => Compiled.ofValue v truth 0) = .error err ↔
      Offence d T (.operand truth) (.member record name) err := by
  unfold Captured.member
  constructor
  · intro h
    rcases hm : record.member? name with _ | v
    · rw [hm] at h
      cases h
      exact .missing hm
    · rw [hm, ok_bind, ofValue_eq_error] at h
      obtain ⟨rfl, h, rfl⟩ := h
      exact .value (.member hm) h
  · intro h
    cases h with
    | missing hm => rw [hm]; rfl
    | value hx h =>
      cases hx with
      | member hm =>
        rw [hm, ok_bind, ofValue_eq_error]
        exact ⟨rfl, h, rfl⟩

lemma ofField_eq_error {n : Nat} : Compiled.ofField d T name truth n = .error err ↔
    Offence d T (.operand truth) (.field name) err := by
  have hnav : T.navigations.any (·.name = name) ↔ name ∈ T.navigations.map Navigation.name := by
    simp
  unfold Compiled.ofField
  constructor
  · intro h
    split at h
    · rename_i hnone
      split at h
      · cases h
        exact .navigation hnone (hnav.mp ‹_›)
      · cases h
        exact .undeclared hnone (mt hnav.mpr ‹_›)
    · rename_i f hf
      cases truth with
      | false => cases h
      | true =>
        rw [if_neg (by decide)] at h
        split at h <;> cases h
        exact .column hf ‹_›
  · intro h
    cases h with
    | undeclared hnone hn => rw [hnone]; exact if_neg (mt hnav.mp hn)
    | navigation hnone hn => rw [hnone]; exact if_pos (hnav.mpr hn)
    | column hf hbool =>
      rw [hf]
      exact (if_neg (by decide)).trans (if_pos hbool)
    | value hx => cases hx

lemma patternParameter_eq_error {how : Matching} : Compiled.patternParameter how v = .error err ↔
    (v.kind ≠ .text ∧ v.kind ≠ .null) ∧
      err = .unsupportedExpression (.valueNotPattern v.kind) := by
  cases v <;> simp [Compiled.patternParameter, refuse, Value.kind, eq_comm]

lemma patternValue_eq_error {how : Matching} : Compiled.patternValue how x = .error err ↔
    ((∀ v, x ≠ .constant v) ∧ (∀ record name, x ≠ .member record name) ∧
      err = .unsupportedExpression (.nodeNotPattern x.nodeName how.name)) ∨
    ∃ record name, x = .member record name ∧ record.member? name = none ∧
      err = .unknownField record.typeName name := by
  cases x with
  | member record name =>
    cases h : record.member? name <;> simp [Compiled.patternValue, Captured.member, h, eq_comm]
  | _ => simp [Compiled.patternValue, refuse, eq_comm]

lemma patternValue_eq_ok {how : Matching} :
    Compiled.patternValue how x = .ok v ↔ x.Brings v := by
  constructor
  · intro h
    cases x with
    | constant => cases h; exact .constant v
    | member record name =>
      cases hm : record.member? name <;> simp [Compiled.patternValue, Captured.member, hm] at h
      exact .member (h ▸ hm)
    | _ => cases h
  · intro h
    cases h with
    | constant => rfl
    | member h => simp [Compiled.patternValue, Captured.member, h]

/-- The look at an operand gives its offence. -/
lemma check_operand_eq_error :
    Node.check d T (.operand truth, x) = .error err ↔ Offence d T (.operand truth) x err := by
  cases x with
  | constant v => rw [Node.check, map_unit_eq_error, ofConstant_eq_error]
  | member record name => rw [Node.check, map_unit_eq_error, ofMember_eq_error]
  | field name => rw [Node.check, map_unit_eq_error, ofField_eq_error]
  | unary op x => rw [Node.check, map_unit_eq_error, signOf_eq_error]
  | binary op l r => rw [Node.check, map_unit_eq_error, infixOf_eq_error]
  | _ =>
    -- A match or a membership is never refused itself.
    constructor
    · intro h; cases h
    · intro h
      cases h with
      | value hx => cases hx

/-- The look at a pattern gives its offence. -/
lemma check_pattern_eq_error {how : Matching} :
    Node.check d T (.pattern how, x) = .error err ↔ Offence d T (.pattern how) x err := by
  rw [Node.check, map_unit_eq_error]
  constructor
  · intro h
    rcases hx : Compiled.patternValue how x with err' | v
    · rw [hx] at h
      cases h
      obtain ⟨hc, hm, rfl⟩ | ⟨record, name, rfl, hm, rfl⟩ := patternValue_eq_error.mp hx
      · exact .node hc hm
      · exact .missing hm
    · rw [hx, ok_bind, patternParameter_eq_error] at h
      obtain ⟨h, rfl⟩ := h
      exact .pattern (patternValue_eq_ok.mp hx) h
  · intro h
    cases h with
    | missing hm => rw [patternValue_eq_error.mpr (.inr ⟨_, _, rfl, hm, rfl⟩)]; rfl
    | node hc hm => rw [patternValue_eq_error.mpr (.inl ⟨hc, hm, rfl⟩)]; rfl
    | pattern hx h =>
      rw [patternValue_eq_ok.mpr hx, ok_bind, patternParameter_eq_error]
      exact ⟨h, rfl⟩

lemma check_eq_error {p : Node} : p.check d T = .error err ↔ Offence d T p.1 p.2 err := by
  obtain ⟨place | how, x⟩ := p
  · exact check_operand_eq_error
  · exact check_pattern_eq_error

/-- A node that the look finds nothing wrong with is clean. -/
lemma check_eq_ok {p : Node} : p.check d T = .ok () ↔ p.Clean d T := by
  constructor
  · intro h err hp
    cases h.symm.trans (check_eq_error.mpr hp)
  · intro h
    rcases hp : p.check d T with err | ⟨⟩
    · exact absurd (check_eq_error.mp hp) (h err)
    · rfl

end Check

/-! ### Looks in order -/

section Looks

variable {ε α β : Type} {f : α → Except ε Unit} {l : List α} {e : ε}

/-- Looks in order find nothing if none of them does. -/
lemma forM_eq_ok : forM l f = .ok () ↔ ∀ a ∈ l, f a = .ok () := by
  induction l with
  | nil => simp [pure, Except.pure]
  | cons a l ih =>
    rw [List.forM_cons, except_bind_eq_ok, List.forall_mem_cons, ← ih]
    exact ⟨fun ⟨⟨⟩, ha, hl⟩ => ⟨ha, hl⟩, fun ⟨ha, hl⟩ => ⟨⟨⟩, ha, hl⟩⟩

/-- Looks in order end with the first that finds something. -/
lemma forM_eq_error : forM l f = .error e ↔
    ∃ before a after, l = before ++ a :: after ∧ (∀ b ∈ before, f b = .ok ()) ∧ f a = .error e := by
  constructor
  · intro h
    induction l with
    | nil => cases h
    | cons a l ih =>
      rw [List.forM_cons] at h
      rcases ha : f a with e' | ⟨⟩
      · rw [ha] at h
        cases h
        exact ⟨[], a, l, rfl, by simp, ha⟩
      · rw [ha] at h
        obtain ⟨before, b, after, rfl, hbefore, hb⟩ := ih h
        exact ⟨a :: before, b, after, rfl, List.forall_mem_cons.mpr ⟨ha, hbefore⟩, hb⟩
  · rintro ⟨before, a, after, rfl, hbefore, ha⟩
    rw [List.forM_append, forM_eq_ok.mpr hbefore, ok_bind, List.forM_cons, ha]
    rfl

/-- What is left of two steps when their results are dropped. -/
lemma map_unit_bind {x : Except ε α} {f : α → Except ε β} {r : Except ε Unit}
    (h : ∀ a, (fun _ => ()) <$> f a = r) :
    (fun _ => ()) <$> (x >>= f) = (((fun _ => ()) <$> x : Except ε Unit) >>= fun _ => r) := by
  cases x with
  | error => rfl
  | ok a => exact h a

end Looks

namespace Sql

variable {d : Dialect} {T : EntityType}

namespace Compiled

lemma map_unit_ofValue (v : Value) (truth : Bool) (n : Nat) :
    (fun _ => ()) <$> ofValue v truth n = (fun _ => ()) <$> ofValue v truth 0 := by
  cases truth <;> cases v <;> rfl

lemma map_unit_ofField (name : String) (truth : Bool) (n : Nat) :
    (fun _ => ()) <$> ofField d T name truth n = (fun _ => ()) <$> ofField d T name truth 0 := by
  unfold ofField
  split
  · rfl
  · split
    · rfl
    · split <;> rfl

/-- The compiler looks at the nodes in order. What it makes of them on the way, and the number that
the parameters start from, have no part in what it is stopped by. -/
lemma map_unit_ofExpr (x : Expr) (truth : Bool) (n : Nat) :
    (fun _ => ()) <$> ofExpr d T x truth n =
      forM ((.operand truth, x) :: x.parts) (Node.check d T) := by
  induction x generalizing truth n with
  | constant v =>
    rw [ofExpr, map_unit_ofValue]
    simp [Expr.parts, Node.check]
  | field name =>
    rw [ofExpr, map_unit_ofField]
    simp [Expr.parts, Node.check]
  | member record name =>
    rw [ofExpr, Expr.parts, List.forM_cons, Node.check]
    cases record.member name with
    | error => rfl
    | ok v => simp [ok_bind, map_unit_ofValue v truth n]
  | unary op x ih =>
    rw [ofExpr, Expr.parts, List.forM_cons, ← ih _ n]
    exact map_unit_bind fun sign => by simp
  | binary op l r ihl ihr =>
    rw [ofExpr, Expr.parts, List.forM_cons, ← List.cons_append, List.forM_append, ← ihl _ n]
    refine map_unit_bind fun sign => map_unit_bind fun l' => ?_
    -- The right operand is numbered after the left one: the induction is on trees at any number.
    rw [← ihr _ (n + l'.values.length)]
    simp
  | matching how x p ih =>
    rw [ofExpr, Expr.parts, List.forM_cons, ← List.cons_append, List.forM_append, ← ih _ n]
    refine map_unit_bind fun x' => ?_
    simp [Node.check]
  | among x values ih =>
    rw [ofExpr, Expr.parts, List.forM_cons, ← ih _ n, Node.check, ok_bind]
    simp

end Compiled

/-- **The first offence decides.** The compiler goes through where no node offends, and otherwise
gives the error of the first node that does. -/
theorem compile_first_offence (d : Dialect) (T : EntityType) (x : Expr) :
    ((∃ f, compile d T x = .ok f) ↔ ∀ p ∈ x.nodes, p.Clean d T) ∧
      ∀ err, compile d T x = .error err ↔ ∃ before p after, x.nodes = before ++ p :: after ∧
        (∀ q ∈ before, q.Clean d T) ∧ Offence d T p.1 p.2 err := by
  have hlook : (fun _ => ()) <$> compile d T x = forM x.nodes (Node.check d T) := by
    have h := Compiled.map_unit_ofExpr (d := d) (T := T) x true 0
    rw [← Expr.nodes] at h
    rw [← h, compile]
    cases Compiled.ofExpr d T x true 0 <;> rfl
  constructor
  · simp only [← check_eq_ok]
    rw [← forM_eq_ok, ← hlook]
    cases compile d T x <;> simp
  · intro err
    simp only [← check_eq_ok, ← check_eq_error]
    rw [← map_unit_eq_error, hlook, forM_eq_error]

/-- A target comes before its pattern, and left before right: the two offences that follow the first
are not reported. -/
example (d : Dialect) (T : EntityType) :
    compile d T (.binary .and
        (.matching .contains (.unary .bitNot (.field "age")) (.constant (.int 1)))
        (.constant (.text "yes"))) =
      .error (.unsupportedOperator "BitNot") := rfl

end Sql

end EntityStore
