import EntityStore.Predicate.Evaluate
import EntityStore.Sql.Condition
import EntityStore.Sql.Fragment

/-!
Predicates as conditions. Every value becomes a parameter, numbered from left to right, so no value
is ever part of the text. Where a truth value is called for (the whole tree, and the operands of
not, and, or) a bare bool is compared: a field with the parameter true, a constant with one.
-/

namespace EntityStore.Sql

/-- The written form of a unary operator, if it has one. -/
def signOf : UnaryOp → Except Error Sign
  | .not => .ok .not
  | .negate => .ok .minus
  | .bitNot => .error (.unsupportedOperator UnaryOp.bitNot.name)

/-- The written form of a binary operator, if it has one. -/
def infixOf : BinaryOp → Except Error Infix
  | .and => .ok .and
  | .or => .ok .or
  | .eq => .ok .eq
  | .ne => .ok .ne
  | .gt => .ok .gt
  | .ge => .ok .ge
  | .lt => .ok .lt
  | .le => .ok .le
  | .add => .ok .plus
  | .sub => .ok .minus
  | .mul => .ok .times
  | .div => .ok .divide
  | .rem => .ok .modulo
  | .bitAnd => .ok .bitAnd
  | .bitOr => .ok .bitOr
  | .bitXor => .ok .bitXor
  | op => .error (.unsupportedOperator op.name)

/-- A condition, and the values of the parameters that it numbers. -/
structure Compiled where
  condition : Condition
  values : List Value

namespace Compiled

/-- A value, as parameter `n`. Only a bool can stand for a truth value. -/
def ofValue (v : Value) (truth : Bool) (n : Nat) : Except Error Compiled :=
  if truth then
    match v with
    | .bool _ => .ok ⟨.binary .eq (.placeholder n) .one, [v]⟩
    | v => refuse (.constantNotTruth v.kind)
  else .ok ⟨.placeholder n, [v]⟩

/-- A field of the type. -/
def ofField (d : Dialect) (T : EntityType) (name : String) (truth : Bool) (n : Nat) :
    Except Error Compiled :=
  match T.field? name with
  | none =>
    if T.navigations.any (·.name = name) then refuse (.navigationQueried name T.name)
    else .error (.unknownField T.name name)
  | some f =>
    if !truth then .ok ⟨.column name, []⟩
    else if f.type.scalar ≠ .bool then refuse (.columnNotTruth (d.quote name))
    else .ok ⟨.binary .eq (.column name) (.placeholder n), [.bool true]⟩

/-- The value of a pattern: a constant or a member. -/
def patternValue (how : Matching) : Expr → Except Error Value
  | .constant v => .ok v
  | .member record name => record.member name
  | x => refuse (.nodeNotPattern x.nodeName how.name)

/-- The parameter a match binds: the text between its wildcards, or a null. -/
def patternParameter (how : Matching) : Value → Except Error Value
  | .text s => .ok (.text (how.wildcards.1 ++ s ++ how.wildcards.2))
  | .null => .ok .null
  | v => refuse (.valueNotPattern v.kind)

/-- The tree as a condition whose parameters are numbered from `n` on; `truth` says whether a truth
value is called for. -/
def ofExpr (d : Dialect) (T : EntityType) : Expr → Bool → Nat → Except Error Compiled
  | .constant v, truth, n => ofValue v truth n
  | .member record name, truth, n => do ofValue (← record.member name) truth n
  | .field name, truth, n => ofField d T name truth n
  | .unary op x, _, n => do
    let sign ← signOf op
    let x ← ofExpr d T x (op == .not) n
    return ⟨.signed sign x.condition, x.values⟩
  | .binary op l r, _, n => do
    let op' ← infixOf op
    let l ← ofExpr d T l op.isLogical n
    let r ← ofExpr d T r op.isLogical (n + l.values.length)
    return ⟨.binary op' l.condition r.condition, l.values ++ r.values⟩
  | .matching how x p, _, n => do
    let x ← ofExpr d T x false n
    let p ← patternParameter how (← patternValue how p)
    return ⟨.binary .like x.condition (.placeholder (n + x.values.length)), x.values ++ [p]⟩
  | .among x values, _, n => do
    let x ← ofExpr d T x false n
    return ⟨.among x.condition (List.range' (n + x.values.length) values.length),
      x.values ++ values⟩

def fragment (d : Dialect) (c : Compiled) : Fragment :=
  ⟨c.condition.text d, c.values.zipIdx.map fun p => ⟨p.2, d.numbered p.2, p.1⟩⟩

end Compiled

/-- Compile a predicate over the fields of a type. -/
def compile (d : Dialect) (T : EntityType) (p : Expr) : Except Error Fragment :=
  (Compiled.ofExpr d T p true 0).map (Compiled.fragment d)

end EntityStore.Sql
