import EntityStore.Store.MemoryTable
import EntityStore.Store.SqlTable

/-!
Adapters carry the entities of one type to where they are kept: a table in memory, or a database
behind a connection. A guard in front of one notes its writes with their keys and may refuse some.
-/

namespace EntityStore

open Sql

/-- A guard in front of an adapter. -/
structure Guard where
  name : String
  /-- The kind of write that is refused. -/
  refuses : Option Operation := none
  /-- How many of them go through before. -/
  spares : Nat := 0
  /-- A backend to report in place of the adapter's own. -/
  backend : Option BackendId := none

/-- Whether an event is a write of the kind through the guard. -/
def Guard.saw (g : Guard) (op : Operation) : Event → Bool
  | .write (some name) o _ _ _ => name == g.name && o == op
  | _ => false

/-- Where an adapter keeps entities. -/
inductive Storage where
  | memory (t : MemoryTable)
  | sql (t : SqlTable)

/-- What stores and fetches the entities of a type. -/
structure Adapter where
  type : EntityType
  schema : Schema
  storage : Storage
  guard : Option Guard := none

namespace Adapter

def inMemory (T : EntityType) (table : String) (key : Option String) (generated : Option Bool)
    (backend : Option String) : Except Error Adapter := do
  let s ← Schema.of T key generated
  return { type := T, schema := s, storage := .memory ⟨table, backend⟩ }

/-- An adapter over a connection. The table is named after the entity unless it is said. -/
def onConnection (T : EntityType) (connection : String) (d : Dialect) (table key : Option String)
    (generated : Option Bool) : Except Error Adapter := do
  let s ← Schema.of T key generated
  let table := table.getD T.name
  return { type := T, schema := s, storage := .sql ⟨connection, table, d, .of table s d⟩ }

variable (a : Adapter)

/-- The backend the adapter writes through, whatever a guard reports. -/
def ownBackend : Option BackendId :=
  match a.storage with
  | .memory t => t.backend
  | .sql t => some (.connection t.connection)

/-- The backend the adapter reports. -/
def backend : Option BackendId :=
  match a.guard with
  | some g => g.backend <|> a.ownBackend
  | none => a.ownBackend

/-- Note a write before it is made. A guard needs the key, and refuses once it has let as many
through as it spares. -/
def announce (op : Operation) (e : Entity) : Step Error Unit :=
  match a.guard with
  | none => modify (·.note (.write none op a.type.name (a.type.read? e a.schema.key) e))
  | some g => do
    let key ← Fallible.ofExcept (a.schema.keyOf a.type e)
    let before := (← get).trace.countP (g.saw op)
    modify (·.note (.write (some g.name) op a.type.name (some key) e))
    if g.refuses = some op ∧ g.spares ≤ before then
      throw (.backendExecution (.plain s!"{a.type.name} store is read-only"))

/-- Store a new entity; the result bears the key it was given. -/
def create (tx : Transaction) (e : Entity) : Step Error Entity := do
  a.announce .insert e
  match a.storage with
  | .memory t => t.write tx (Table.create a.type a.schema e)
  | .sql t => t.create a.type a.schema e

/-- Store the fields of an entity over those under the same key, if there are any. -/
def update (tx : Transaction) (e : Entity) : Step Error Unit := do
  a.announce .update e
  match a.storage with
  | .memory t => t.write tx (Table.update a.type a.schema e)
  | .sql t => t.update a.type a.schema e

/-- Remove what is stored under the key of an entity, if there is anything. -/
def delete (tx : Transaction) (e : Entity) : Step Error Unit := do
  a.announce .delete e
  match a.storage with
  | .memory t => t.write tx (Table.delete a.type a.schema e)
  | .sql t => t.delete a.type a.schema e

/-- The stored entities that satisfy a predicate, as copies. -/
def read (p : Expr) : Step Error (List Entity) :=
  match a.storage with
  | .memory t => t.read a.type p
  | .sql t => t.read a.type a.schema p

/-- The entities that a query in the words of the database returns; a table in memory knows none. -/
def readRaw (sql : String) (values : List Value) : Step Error (List Entity) :=
  match a.storage with
  | .memory _ => return []
  | .sql t => t.query a.type a.schema sql (positional t.dialect values)

/-- Run a command in the words of the database and count the rows it affected. -/
def execute (sql : String) (values : List Value) : Step Error Nat :=
  match a.storage with
  | .memory _ => return 0
  | .sql t => Step.reported (Connection.exec t.connection sql (positional t.dialect values))

end Adapter

end EntityStore
