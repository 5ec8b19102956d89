import EntityStore.Predicate.Basic
import EntityStore.Text.Substitute

/-!
Predicates decided in memory, on one entity. Comparison is that of values, not the three-valued one
of databases: a null equals a null and nothing else, and no order holds of it. Integers are exact:
what leaves 64 bits is an error.
-/

namespace EntityStore

namespace Value

/-- A bool decides, and a null decides against. -/
def truth : Value → Except Error Bool
  | bool b => .ok b
  | null => .ok false
  | v => refuse (.valueNotTruth v.kind)

/-- The operator is not defined on operands of these kinds. -/
def undefined {α : Type} (op : BinaryOp) (l r : Value) : Except Error α :=
  refuse (.binaryUndefined op.name l.kind r.kind)

/-- Equality of two values, a null being equal to a null only. -/
def equals : Value → Value → Except Error Bool
  | null, null => .ok true
  | null, _ => .ok false
  | _, null => .ok false
  | l, r =>
    match l.compare? r with
    | some o => .ok (o == .eq)
    | none => undefined .eq l r

/-- Apply a unary operator; a null stays null. -/
def unary : UnaryOp → Value → Except Error Value
  | _, null => .ok null
  | .not, bool b => .ok (bool !b)
  | .negate, int i =>
    match fit? (-i.toInt) with
    | some j => .ok (int j)
    | none => refuse (.negationOverflow i)
  | .negate, float x => .ok (float (-x))
  | .bitNot, int i => .ok (int (~~~i))
  | op, v => refuse (.unaryUndefined op.name v.kind)

/-- A power, if it fits; the exponent is one of 32 bits without sign. -/
def power? (a b : Int64) : Option Int64 :=
  if b.toInt < 0 ∨ UInt32.size ≤ b.toInt then none
  else
    let n := b.toInt.toNat
    if a.toInt.natAbs ≤ 1 then fit? (Int.pow a.toInt (if n = 0 then 0 else 2 - n % 2))
    else if 64 ≤ n then none
    else fit? (Int.pow a.toInt n)

/-- Whether bits can be shifted by the amount. -/
def isShift (b : Int64) : Bool := 0 ≤ b.toInt && b.toInt < 64

/-- The result of an operator on two integers, if it has one that fits. The bits that a shift moves
out are lost. -/
def integerResult? (op : BinaryOp) (a b : Int64) : Option Int64 :=
  match op with
  | .add => fit? (a.toInt + b.toInt)
  | .sub => fit? (a.toInt - b.toInt)
  | .mul => fit? (a.toInt * b.toInt)
  | .div => fit? (a.toInt.tdiv b.toInt)
  | .rem => (fit? (a.toInt.tdiv b.toInt)).bind fun _ => fit? (a.toInt.tmod b.toInt)
  | .bitAnd => some (a &&& b)
  | .bitOr => some (a ||| b)
  | .bitXor => some (a ^^^ b)
  | .power => power? a b
  | .shiftLeft => if isShift b then some (a <<< b) else none
  | .shiftRight => if isShift b then some (a >>> b) else none
  | _ => none

/-- Integer operands: division cuts off toward zero, and a remainder has the sign of its left
operand. -/
def integer (op : BinaryOp) (a b : Int64) : Except Error Value :=
  if (op = .div ∨ op = .rem) ∧ b = 0 then
    refuse (.divisionByZero (int a).display op.name (int b).display)
  else match integerResult? op a b with
    | some r => .ok (int r)
    | none => refuse (.overflow (int a).display op.name (int b).display)

def floating (op : BinaryOp) (a b : Float) : Except Error Value :=
  match op with
  | .add => .ok (float (a + b))
  | .sub => .ok (float (a - b))
  | .mul => .ok (float (a * b))
  | .div =>
    if Binary64.same b 0 then refuse (.divisionByZero (float a).display op.name (float b).display)
    else .ok (float (a / b))
  | .rem =>
    if Binary64.same b 0 then refuse (.divisionByZero (float a).display op.name (float b).display)
    else .ok (float (Binary64.remainder a b))
  | .power => .ok (float (Float.pow a b))
  | _ => undefined op (float a) (float b)

/-- Operands neither of which is null. Integers become floats beside a float, texts are joined, and
the bitwise operators also work on bools. -/
def arithmetic (op : BinaryOp) : Value → Value → Except Error Value
  | int a, int b => integer op a b
  | int a, float b => floating op (Binary64.ofInt a.toInt) b
  | float a, int b => floating op a (Binary64.ofInt b.toInt)
  | float a, float b => floating op a b
  | text a, text b =>
    if op = .add then .ok (text (a ++ b)) else undefined op (text a) (text b)
  | bool a, bool b =>
    match op with
    | .bitAnd => .ok (bool (a && b))
    | .bitOr => .ok (bool (a || b))
    | .bitXor => .ok (bool (a ^^ b))
    | _ => undefined op (bool a) (bool b)
  | l, r => undefined op l r

/-- Whether an order is what the comparison asks for. -/
def ordered (op : BinaryOp) (o : Ordering) : Bool :=
  match op with
  | .gt => o == .gt
  | .ge => o != .lt
  | .lt => o == .lt
  | _ => o != .gt

/-- Apply a binary operator that looks at both operands. -/
def binary (op : BinaryOp) (l r : Value) : Except Error Value :=
  match op with
  | .eq => (equals l r).map bool
  | .ne => (equals l r).map fun b => bool !b
  | .gt | .ge | .lt | .le =>
    if l.isNull || r.isNull then .ok (bool false)
    else match l.compare? r with
      | some o => .ok (bool (ordered op o))
      | none => undefined op l r
  | .coalesce => .ok (if l.isNull then r else l)
  | _ => if l.isNull || r.isNull then .ok null else arithmetic op l r

end Value

/-- Whether the pattern stands where the match asks for it. -/
def Matching.holds (how : Matching) (target pattern : List Char) : Bool :=
  match how with
  | contains => Text.occurs pattern target
  | startsWith => pattern.isPrefixOf target
  | endsWith => pattern.isSuffixOf target

/-- Match a text against a pattern; with a null on either side there is no match. -/
def Matching.decide (how : Matching) (target pattern : Value) : Except Error Value :=
  match target, pattern with
  | .text t, .text p => .ok (.bool (how.holds t.toList p.toList))
  | _, _ =>
    if target.isNull || pattern.isNull then .ok (.bool false)
    else refuse (.matchNeedsText how.name target.kind pattern.kind)

/-- Whether the value equals one of the list. Values that do not compare are not equal. -/
def Value.isAmong (v : Value) (values : List Value) : Bool :=
  values.any fun w => v.compare? w == some .eq

namespace Expr

/-- The value of a tree on an entity. -/
def eval (T : EntityType) (e : Entity) : Expr → Except Error Value
  | constant v => .ok v
  | field name => T.read e name
  | member record name => record.member name
  | unary op x => do Value.unary op (← eval T e x)
  | binary .and l r => do
    if ← (← eval T e l).truth then
      return .bool (← (← eval T e r).truth)
    else return .bool false
  | binary .or l r => do
    if ← (← eval T e l).truth then return .bool true
    else return .bool (← (← eval T e r).truth)
  | binary op l r => do
    let l ← eval T e l
    let r ← eval T e r
    Value.binary op l r
  | matching how x p => do
    let x ← eval T e x
    let p ← eval T e p
    how.decide x p
  | among x values => do
    let x ← eval T e x
    return .bool (x.isAmong values)

def satisfied (T : EntityType) (e : Entity) (p : Expr) : Except Error Bool := do
  (← eval T e p).truth

end Expr

end EntityStore
