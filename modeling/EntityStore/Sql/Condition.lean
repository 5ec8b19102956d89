import EntityStore.Sql.Dialect

/-!
The conditions that predicates become: columns, numbered placeholders and operators. Written out,
every operator has parentheses around it, so that no reading depends on precedence.
-/

namespace EntityStore.Sql

/-- An operator before its operand. -/
inductive Sign where
  | not
  | minus
deriving DecidableEq, Repr

def Sign.token : Sign → String
  | not => "NOT"
  | minus => "-"

/-- An operator between its operands. -/
inductive Infix where
  | and
  | or
  | eq
  | ne
  | gt
  | ge
  | lt
  | le
  | plus
  | minus
  | times
  | divide
  | modulo
  | bitAnd
  | bitOr
  | bitXor
  | like
deriving DecidableEq, Repr

def Infix.token : Infix → String
  | and => "AND"
  | or => "OR"
  | eq => "="
  | ne => "<>"
  | gt => ">"
  | ge => ">="
  | lt => "<"
  | le => "<="
  | plus => "+"
  | minus => "-"
  | times => "*"
  | divide => "/"
  | modulo => "%"
  | bitAnd => "&"
  | bitOr => "|"
  | bitXor => "^"
  | like => "LIKE"

/-- A condition; placeholders appear by number. -/
inductive Condition where
  | column (name : String)
  | placeholder (id : Nat)
  | one
  | signed (op : Sign) (operand : Condition)
  | binary (op : Infix) (left right : Condition)
  | among (target : Condition) (ids : List Nat)
deriving DecidableEq, Repr

/-- The list of a membership test: placeholders between commas, or a null where there are none. -/
def membersText (d : Dialect) : List Nat → String
  | [] => "null"
  | ids => ",".intercalate (ids.map d.numbered)

def Condition.text (d : Dialect) : Condition → String
  | column name => d.quote name
  | placeholder id => d.numbered id
  | one => "1"
  | signed op x => "(" ++ op.token ++ " " ++ x.text d ++ ")"
  | binary op l r => "(" ++ l.text d ++ " " ++ op.token ++ " " ++ r.text d ++ ")"
  | among x ids => "(" ++ x.text d ++ " IN (" ++ membersText d ids ++ "))"

end EntityStore.Sql
