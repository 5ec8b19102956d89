import EntityStore.Sql.Compile
import EntityStore.Sql.Statement
import EntityStore.Store.Connection

/-!
A table of a database behind a connection. Entities go out as the parameters of statements and come
back as rows, field by field under the names of the columns.
-/

namespace EntityStore

open Sql

/-- A table of a database, with the statements for it. -/
structure SqlTable where
  connection : String
  name : String
  dialect : Dialect
  statements : Statements

namespace SqlTable

variable (t : SqlTable) (T : EntityType) (s : Schema)

/-- The parameters of fields, bound to what an entity has in them. -/
def bindings (e : Entity) (fields : List String) : Except Error (List Binding) :=
  fields.mapM fun field => do return (t.dialect.parameter field, ← T.read e field)

/-- One column of a row, as the field of an entity. -/
def takeColumn (row : Row) (e : Entity) (field : String) : Except Error Entity :=
  match row.get? field with
  | some v => T.assign e field v
  | none => .error (.backendExecution (.plain s!"column {field} missing from {t.name} row"))

/-- The entity that a row stands for. -/
def ofRow (row : Row) : Except Error Entity := s.persisted.foldlM (t.takeColumn T row) T.fresh

/-- Say what was being done to the table when the connection failed. -/
def doing {α : Type} (what : String) (x : Step Report α) : Step Error α :=
  Step.reported (Step.context s!"failed to {what} {t.name}" x)

/-- Run a query and read its rows as entities. -/
def query (sql : String) (bindings : List Binding) : Step Error (List Entity) := do
  let rows ← t.doing "read" (Connection.query t.connection sql bindings)
  Fallible.ofExcept (rows.mapM (t.ofRow T s))

/-- Insert an entity; the result bears the key it was given. -/
def create (e : Entity) : Step Error Entity := do
  let params ← Fallible.ofExcept (t.bindings T e s.insertable)
  let sql := t.statements.insert.text t.dialect
  if s.generated then
    let key ← t.doing "insert into" (Connection.insert t.connection sql params t.dialect)
    Fallible.ofExcept (T.assign e s.key key)
  else
    discard <| t.doing "insert into" (Connection.exec t.connection sql params)
    return e

def update (e : Entity) : Step Error Unit :=
  match t.statements.update with
  | none => return
  | some statement => do
    let params ← Fallible.ofExcept (t.bindings T e s.persisted)
    discard <| t.doing "update" (Connection.exec t.connection (statement.text t.dialect) params)

def delete (e : Entity) : Step Error Unit := do
  let params ← Fallible.ofExcept (t.bindings T e [s.key])
  discard <| t.doing "delete from" <|
    Connection.exec t.connection (t.statements.delete.text t.dialect) params

def read (p : Expr) : Step Error (List Entity) := do
  let f ← Fallible.ofExcept (compile t.dialect T p)
  t.query T s (t.statements.selectWhere t.dialect f) (f.params.map fun q => (q.name, q.value))

end SqlTable

end EntityStore
