import EntityStore.Calendar.Reading
import EntityStore.Error

/-!
The kinds of field an entity can have: what each holds, the value it shows, and which stored values
it takes back. Reading is lenient where a store lacks a type of its own.
-/

namespace EntityStore

open Calendar

/-- The semantic type of a field. -/
inductive Scalar where
  | bool
  | integer
  | enumeration
  | float
  | text
  | dateTime
deriving DecidableEq, Repr

/-- Keys of these types are generated unless it is said otherwise. -/
def Scalar.isIntegerLike (s : Scalar) : Bool := s == .integer

/-- Semantic type and whether the field accepts a null. -/
structure FieldType where
  scalar : Scalar
  nullable : Bool
deriving DecidableEq, Repr

/-- An enumeration, stored by the codes of its members. -/
structure Enumeration where
  codes : List Int64
  initial : Int64
  initial_mem : initial ∈ codes := by decide

/-- How a field holds its content. -/
inductive FieldKind where
  | bool
  | int32
  | int64
  | uint32
  | float
  | text
  | dateTime
  | date
  | enumeration (e : Enumeration)
  | optional (k : FieldKind)

namespace FieldKind

/-- What a field of the kind holds. -/
def Content : FieldKind → Type
  | bool => Bool
  | int32 => Int32
  | int64 => Int64
  | uint32 => UInt32
  | float => Float
  | text => String
  | dateTime => DateTime
  | date => Date
  | enumeration e => { code : Int64 // code ∈ e.codes }
  | optional k => Option k.Content

def type : FieldKind → FieldType
  | bool => ⟨.bool, false⟩
  | int32 | int64 | uint32 => ⟨.integer, false⟩
  | float => ⟨.float, false⟩
  | text => ⟨.text, false⟩
  | dateTime | date => ⟨.dateTime, false⟩
  | enumeration _ => ⟨.enumeration, false⟩
  | optional k => ⟨k.type.scalar, true⟩

/-- What a field holds before anything is assigned. -/
def initial : (k : FieldKind) → k.Content
  | bool => false
  | int32 => (0 : Int32)
  | int64 => (0 : Int64)
  | uint32 => (0 : UInt32)
  | float => (0 : Float)
  | text => ""
  | dateTime => Date.epoch.atMidnight
  | date => Date.epoch
  | enumeration e => ⟨e.initial, e.initial_mem⟩
  | optional _ => none

/-- The value that a content shows. -/
def toValue : (k : FieldKind) → k.Content → Value
  | bool, b => .bool b
  | int32, i => .int (Int32.toInt64 i)
  | int64, i => .int i
  | uint32, n => .int (Int64.ofNat (UInt32.toNat n))
  | float, x => .float x
  | text, s => .text s
  | dateTime, t => .dateTime t
  | date, d => .dateTime (Date.atMidnight d)
  | enumeration _, c => .int c.val
  | optional k, c =>
    match c with
    | none => .null
    | some c => k.toValue c

/-- The truth value that a value stands for: a store without bools keeps zero and one. -/
def truth? : Value → Option Bool
  | .bool b => some b
  | .int i => if i = 0 then some false else if i = 1 then some true else none
  | _ => none

/-- The integer that a value stands for. -/
def integer? : Value → Option Int64
  | .int i => some i
  | _ => none

/-- The float that a value stands for; an integer counts as the nearest one. -/
def float? : Value → Option Float
  | .float x => some x
  | .int i => some (Binary64.ofInt i.toInt)
  | _ => none

/-- The instant that a value stands for: a store without a type for it keeps text. -/
def instant? : Value → Option DateTime
  | .dateTime t => some t
  | .text s => DateTime.ofText? s
  | _ => none

/-- The content that a stored value stands for, if the kind takes it. -/
def ofValue? : (k : FieldKind) → Value → Option k.Content
  | bool, v => truth? v
  | int32, v => (integer? v).bind fun i =>
    if Int32.minValue.toInt ≤ i.toInt ∧ i.toInt ≤ Int32.maxValue.toInt then
      some (Int32.ofInt i.toInt)
    else none
  | int64, v => integer? v
  | uint32, v => (integer? v).bind fun i =>
    if 0 ≤ i.toInt ∧ i.toInt < UInt32.size then some (UInt32.ofNat i.toInt.toNat) else none
  | float, v => float? v
  | text, v => v.asText?
  | dateTime, v => instant? v
  | date, v => (instant? v).map DateTime.date
  | enumeration e, v => (integer? v).bind fun i => if h : i ∈ e.codes then some ⟨i, h⟩ else none
  | optional k, v => if v.isNull then some none else (k.ofValue? v).map some

/-- The value a field of the kind shows after a stored value was assigned to it. -/
def stored (k : FieldKind) (field : String) (v : Value) : Except Error Value :=
  match k.ofValue? v with
  | some c => .ok (k.toValue c)
  | none => .error (.materialization field v)

end FieldKind

end EntityStore
