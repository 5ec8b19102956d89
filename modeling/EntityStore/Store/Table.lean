import EntityStore.Entity.Schema
import EntityStore.Predicate.Evaluate

/-!
The rows of a table, in the order of their creation and found by their key, and the writes on them.
A write says with its result what takes it back, as data: a rolled back transaction plays these
backwards.
-/

namespace EntityStore

/-- What undoes one change of a table. -/
inductive Undo where
  /-- Take out the last row with the key of the one created. -/
  | created (T : EntityType) (key : String) (value : Value)
  /-- Put the row at the position back to what it was. -/
  | updated (position : Nat) (before : Entity)
  /-- Put the row back in at its position. -/
  | deleted (position : Nat) (removed : Entity)

namespace Table

/-- Whether a row shows the value in its key field. -/
def hasKey (T : EntityType) (key : String) (v : Value) (row : Entity) : Bool :=
  match T.read? row key with
  | some w => w.same v
  | none => false

/-- The first row with a key, and where it stands. -/
def find? (T : EntityType) (key : String) (v : Value) (rows : List Entity) :
    Option (Nat × Entity) := do
  let i ← rows.findIdx? (hasKey T key v)
  return (i, ← rows[i]?)

def undo (rows : List Entity) : Undo → List Entity
  | .created T key v => (rows.reverse.eraseP (hasKey T key v)).reverse
  | .updated position before => rows.set position before
  | .deleted position removed => rows.take position ++ removed :: rows.drop position

/-- The greater of a key seen so far and the key of a row; a row without a key does not count. -/
def greaterKey (T : EntityType) (s : Schema) (most : Int64) (row : Entity) :
    Except Error Int64 := do
  match ← T.read row s.key with
  | .int k => return if most < k then k else most
  | .null => return most
  | v => refuse (.keyNotGenerated v.kind s.key T.name)

/-- The key after the greatest one in the table, at least one. -/
def nextKey (T : EntityType) (s : Schema) (rows : List Entity) : Except Error Int64 := do
  let most ← rows.foldlM (greaterKey T s) 0
  match fit? (most.toInt + 1) with
  | some k => return k
  | none =>
    throw (.backendExecution (.plain s!"{T.name} key {s.key} exhausted at {most.toInt}"))

/-- An entity made ready to be created: with its key, and as the row that is added. -/
structure Creation where
  entity : Entity
  row : Entity
  key : Value

def keyed (T : EntityType) (s : Schema) (rows : List Entity) (e : Entity) : Except Error Entity :=
  if s.generated then do
    let k ← nextKey T s rows
    T.assign e s.key (.int k)
  else .ok e

/-- Assign the key if it is generated, and copy what is stored. -/
def creation (T : EntityType) (s : Schema) (rows : List Entity) (e : Entity) :
    Except Error Creation := do
  let e ← keyed T s rows e
  let row ← s.snapshot T e
  let key ← T.read row s.key
  return ⟨e, row, key⟩

/-- Assign fields of an entity to a row one by one. Those before a refused one stay assigned. -/
def overwrite (T : EntityType) (e : Entity) : List String → Entity → Entity × Option Error
  | [], row => (row, none)
  | field :: rest, row =>
    match T.read e field >>= T.assign row field with
    | .ok row => overwrite T e rest row
    | .error err => (row, some err)

/-- What comes of a write: its result, the rows after it and what undoes it. -/
structure Outcome (α : Type) where
  result : Except Error α
  rows : List Entity
  undo : Option Undo := none

/-- Add an entity at the end; the result bears the key it was given. -/
def create (T : EntityType) (s : Schema) (e : Entity) (rows : List Entity) : Outcome Entity :=
  match creation T s rows e with
  | .ok c => ⟨.ok c.entity, rows ++ [c.row], some (.created T s.key c.key)⟩
  | .error err => ⟨.error err, rows, none⟩

/-- Store the fields of an entity over those of the row with its key, if there is one. -/
def update (T : EntityType) (s : Schema) (e : Entity) (rows : List Entity) : Outcome Unit :=
  match s.keyOf T e with
  | .error err => ⟨.error err, rows, none⟩
  | .ok key =>
    match find? T s.key key rows with
    | none => ⟨.ok (), rows, none⟩
    | some (i, before) =>
      match overwrite T e s.persistedWithoutKey before with
      | (row, none) => ⟨.ok (), rows.set i row, some (.updated i before)⟩
      | (row, some err) => ⟨.error err, rows.set i row, none⟩

/-- Remove the row with the key of an entity, if there is one. -/
def delete (T : EntityType) (s : Schema) (e : Entity) (rows : List Entity) : Outcome Unit :=
  match s.keyOf T e with
  | .error err => ⟨.error err, rows, none⟩
  | .ok key =>
    match find? T s.key key rows with
    | none => ⟨.ok (), rows, none⟩
    | some (i, row) => ⟨.ok (), rows.eraseIdx i, some (.deleted i row)⟩

def select (T : EntityType) (p : Expr) (rows : List Entity) : Except Error (List Entity) :=
  rows.filterM fun row => p.satisfied T row

end Table

end EntityStore
