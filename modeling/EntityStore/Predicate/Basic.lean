import EntityStore.Entity.Basic

/-!
Predicate trees over the fields of one entity type. Constants, and members of captured records, are
the only values in them.
-/

namespace EntityStore

inductive UnaryOp where
  | not
  | negate
  | bitNot
deriving DecidableEq, Repr

def UnaryOp.all : List UnaryOp := [.not, .negate, .bitNot]

/-- Name of an operator, as messages give it. -/
def UnaryOp.name : UnaryOp → String
  | not => "Not"
  | negate => "Negate"
  | bitNot => "BitNot"

inductive BinaryOp where
  | and
  | or
  | eq
  | ne
  | gt
  | ge
  | lt
  | le
  | add
  | sub
  | mul
  | div
  | rem
  | bitAnd
  | bitOr
  | bitXor
  | power
  | shiftLeft
  | shiftRight
  /-- The first operand that is not null. -/
  | coalesce
deriving DecidableEq, Repr

namespace BinaryOp

def all : List BinaryOp :=
  [and, or, eq, ne, gt, ge, lt, le, add, sub, mul, div, rem, bitAnd, bitOr, bitXor, power,
    shiftLeft, shiftRight, coalesce]

/-- Name of an operator, as messages give it. -/
def name : BinaryOp → String
  | and => "And"
  | or => "Or"
  | eq => "Eq"
  | ne => "Ne"
  | gt => "Gt"
  | ge => "Ge"
  | lt => "Lt"
  | le => "Le"
  | add => "Add"
  | sub => "Sub"
  | mul => "Mul"
  | div => "Div"
  | rem => "Rem"
  | bitAnd => "BitAnd"
  | bitOr => "BitOr"
  | bitXor => "BitXor"
  | power => "Power"
  | shiftLeft => "ShiftLeft"
  | shiftRight => "ShiftRight"
  | coalesce => "Coalesce"

/-- Whether the operands are truth values. -/
def isLogical : BinaryOp → Bool
  | and | or => true
  | _ => false

end BinaryOp

/-- Where in a text the pattern has to be. -/
inductive Matching where
  | contains
  | startsWith
  | endsWith
deriving DecidableEq, Repr

namespace Matching

def all : List Matching := [contains, startsWith, endsWith]

/-- Name of a match, as messages give it. -/
def name : Matching → String
  | contains => "Contains"
  | startsWith => "StartsWith"
  | endsWith => "EndsWith"

/-- What stands for the rest of the text before and after the pattern. -/
def wildcards : Matching → String × String
  | contains => ("%", "%")
  | startsWith => ("", "%")
  | endsWith => ("%", "")

end Matching

/-- A predicate tree. -/
inductive Expr where
  | constant (v : Value)
  | field (name : String)
  | member (record : Captured) (name : String)
  | unary (op : UnaryOp) (operand : Expr)
  | binary (op : BinaryOp) (left right : Expr)
  | matching (how : Matching) (target pattern : Expr)
  | among (target : Expr) (values : List Value)
deriving Inhabited

namespace Expr

/-- Satisfied by every entity. -/
def always : Expr := constant (.bool true)

/-- Name of the kind of node, as messages give it. -/
def nodeName : Expr → String
  | constant _ => "Constant"
  | field _ => "FieldAccess"
  | member _ _ => "MemberAccess"
  | unary _ _ => "UnaryOp"
  | binary _ _ _ => "BinaryOp"
  | matching _ _ _ => "StringMatch"
  | among _ _ => "SetMembership"

end Expr

/-- The value of a member of a captured record. -/
def Captured.member (c : Captured) (name : String) : Except Error Value :=
  match c.member? name with
  | some v => .ok v
  | none => .error (.unknownField c.typeName name)

end EntityStore
