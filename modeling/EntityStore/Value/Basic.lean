import EntityStore.Binary64
import EntityStore.Calendar.Date

/-!
Scalar values exchanged between entities, predicates and stores, and how two of them compare.
-/

namespace EntityStore

open Calendar

/-- A scalar value. -/
inductive Value where
  | null
  | bool (b : Bool)
  | int (i : Int64)
  | float (x : Float)
  | text (s : String)
  | dateTime (t : DateTime)
deriving Inhabited

/-- The kinds of value, told apart in messages. -/
inductive Kind where
  | null
  | bool
  | integer
  | float
  | text
  | datetime
deriving DecidableEq, Repr

def Kind.name : Kind → String
  | null => "null"
  | bool => "bool"
  | integer => "integer"
  | float => "float"
  | text => "text"
  | datetime => "datetime"

/-- The integer in 64 bits, if it fits. -/
def fit? (i : Int) : Option Int64 :=
  if Int64.minValue.toInt ≤ i ∧ i ≤ Int64.maxValue.toInt then some (Int64.ofInt i) else none

namespace Value

def kind : Value → Kind
  | null => .null
  | bool _ => .bool
  | int _ => .integer
  | float _ => .float
  | text _ => .text
  | dateTime _ => .datetime

def isNull : Value → Bool
  | null => true
  | _ => false

def asText? : Value → Option String
  | text s => some s
  | _ => none

/-- Order of two values of comparable kinds: a null compares with a null only, and an integer with a
float by its nearest double. -/
def compare? : Value → Value → Option Ordering
  | null, null => some .eq
  | bool a, bool b => some (compare a b)
  | int a, int b => some (compare a b)
  | int a, float b => (Binary64.place? b).map (compare (Binary64.placeOfInt a.toInt))
  | float a, int b => (Binary64.place? a).map (compare · (Binary64.placeOfInt b.toInt))
  | float a, float b => Binary64.compare? a b
  | text a, text b => some (compare a b)
  | dateTime a, dateTime b => some (a.order b)
  | _, _ => none

/-- Same kind and same content. A float that is not a number is the same as none, itself
included. -/
def same : Value → Value → Bool
  | null, null => true
  | bool a, bool b => a == b
  | int a, int b => a == b
  | float a, float b => Binary64.same a b
  | text a, text b => a == b
  | dateTime a, dateTime b => a == b
  | _, _ => false

end Value

end EntityStore
