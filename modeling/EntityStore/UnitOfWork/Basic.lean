import EntityStore.Store.DataStore

/-!
A unit of work: one data store for each registered type, and the relations mapped between types. It
buffers writes until they are committed together.
-/

namespace EntityStore

/-- A child belongs to a parent when its field equals the parent's. -/
structure Join where
  parentField : String
  childField : String

/-- The predicate of the children of a parent, by the value of its field. -/
def Join.predicate (j : Join) (v : Value) : Expr := .binary .eq (.field j.childField) (.constant v)

/-- A navigation of the parent type, filled with the children that a join finds. -/
structure Relation where
  parent : EntityType
  navigation : String
  child : EntityType
  join : Join

/-- Stores in the order of their registration, relations in the order of their mapping, and the name
of the type registered last. Types are told apart by name. -/
structure UnitOfWork where
  stores : List DataStore := []
  relations : List Relation := []
  last : Option String := none

namespace UnitOfWork

variable (u : UnitOfWork)

def store? (name : String) : Option DataStore := u.stores.find? (·.type.name = name)

def store (T : EntityType) : Except Error DataStore :=
  match u.store? T.name with
  | some s => .ok s
  | none => .error (.unregisteredEntity T.name)

/-- The relations whose parents are of a type. -/
def relationsOf (T : EntityType) : List Relation := u.relations.filter (·.parent.name = T.name)

/-- Register a store. One of the same type gives up its place, and with it what it had buffered. -/
def register (s : DataStore) : UnitOfWork :=
  { u with
    stores := if (u.store? s.type.name).isSome then
        u.stores.map fun t => if t.type.name = s.type.name then s else t
      else u.stores ++ [s]
    last := some s.type.name }

/-- Add a relation between declared fields. -/
def relate (r : Relation) : Except Error UnitOfWork :=
  if !r.parent.declares r.join.parentField then
    .error (.unknownField r.parent.name r.join.parentField)
  else if !r.child.declares r.join.childField then
    .error (.unknownField r.child.name r.join.childField)
  else .ok { u with relations := u.relations ++ [r] }

/-- Map a relation of the type registered last. -/
def map (r : Relation) : Except Error UnitOfWork :=
  if u.last = some r.parent.name then u.relate r else .error (.unregisteredEntity r.parent.name)

def modifyStore (T : EntityType) (f : DataStore → DataStore) : Except Error UnitOfWork := do
  discard <| u.store T
  return { u with stores := u.stores.map fun s => if s.type.name = T.name then f s else s }

def buffer (op : Operation) (T : EntityType) (e : Entity) : Except Error UnitOfWork :=
  u.modifyStore T fun s => s.buffer op e

def pending : Nat := (u.stores.flatMap (·.pending)).length

def clear : UnitOfWork := { u with stores := u.stores.map DataStore.clear }

end UnitOfWork

end EntityStore
