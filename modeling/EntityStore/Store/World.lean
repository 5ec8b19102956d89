import EntityStore.Named
import EntityStore.Sql.Dialect
import EntityStore.Sql.Row
import EntityStore.Store.Table

/-!
Everything outside the session: tables, the backends that group writes into transactions, and the
trace of what was asked of them. A backend is a journal over tables in memory, or stands for a
database elsewhere that answers from a script.
-/

namespace EntityStore

open Sql

/-- The calls that open and close a transaction. -/
inductive Call where
  | begin
  | commit
  | rollback
deriving DecidableEq, Repr

def Call.all : List Call := [begin, commit, rollback]

def Call.name : Call → String
  | begin => "begin"
  | commit => "commit"
  | rollback => "rollback"

/-- The kinds of write. -/
inductive Operation where
  | insert
  | update
  | delete
deriving DecidableEq, Repr

def Operation.all : List Operation := [insert, update, delete]

def Operation.name : Operation → String
  | insert => "Insert"
  | update => "Update"
  | delete => "Delete"

/-- The ways to run a statement. -/
inductive Mode where
  | query
  | exec
  | batch
deriving DecidableEq, Repr

def Mode.name : Mode → String
  | query => "query"
  | exec => "exec"
  | batch => "execute_batch"

/-- What a database answers to a statement. -/
structure Reply where
  rows : List Row := []
  affected : Nat := 0
  failure : Option Report := none

/-- A database elsewhere: its answers to statements, taken in turn, and what it says when it refuses
one of its calls, by the number of calls before. -/
structure Remote where
  dialect : Dialect := .standard
  script : List Reply := []
  refusal : Nat → Call → Option String := fun _ _ => none
  calls : Nat := 0

/-- A change of a named table. -/
structure Change where
  table : String
  undo : Undo

/-- Tells backends apart: the journals of tables in memory, services that take calls alone, and
connections. Each kind has names of its own. -/
inductive BackendId where
  | memory (name : String)
  | service (name : String)
  | connection (name : String)
deriving DecidableEq, Repr

def BackendId.name : BackendId → String
  | memory name => name
  | service name => name
  | connection name => name

/-- What can hold a transaction. An open journal has its changes newest first. -/
inductive Backend where
  | journal (changes : Option (List Change))
  | remote (r : Remote)

/-- Something asked of an adapter or a backend. Of calls and statements the trace says whether they
went through; a write is noted before it is made. -/
inductive Event where
  | call (backend : BackendId) (c : Call) (ok : Bool)
  | statement (connection : String) (mode : Mode) (sql : String) (bindings : List Binding)
      (ok : Bool)
  /-- A write of an entity, through a guard if it has a name. -/
  | write (guard : Option String) (op : Operation) (entity : String) (key : Option Value)
      (row : Entity)

/-- Tables, backends and the trace, newest first. -/
structure World where
  tables : Named (List Entity) := []
  backends : Keyed BackendId Backend := []
  trace : List Event := []

namespace World

def rows (w : World) (table : String) : List Entity := (w.tables.get? table).getD []

def dialect (w : World) (connection : String) : Dialect :=
  match w.backends.get? (.connection connection) with
  | some (.remote r) => r.dialect
  | _ => .standard

def withRows (w : World) (table : String) (rows : List Entity) : World :=
  { w with tables := w.tables.put table rows }

def withBackend (w : World) (id : BackendId) (b : Backend) : World :=
  { w with backends := w.backends.put id b }

def note (w : World) (e : Event) : World := { w with trace := e :: w.trace }

def undo (w : World) (c : Change) : World := w.withRows c.table (Table.undo (w.rows c.table) c.undo)

/-- Add a change to a journal, if it is open. -/
def journal (w : World) (backend : BackendId) (c : Change) : World :=
  match w.backends.get? backend with
  | some (.journal (some changes)) => w.withBackend backend (.journal (some (c :: changes)))
  | _ => w

@[simp] theorem rows_withRows_self (w : World) (table : String) (rows : List Entity) :
    (w.withRows table rows).rows table = rows := by
  simp [World.rows, withRows]

@[simp] theorem rows_withRows_of_ne (w : World) {table other : String} (rows : List Entity)
    (h : other ≠ table) : (w.withRows table rows).rows other = w.rows other := by
  simp [World.rows, withRows, h]

@[simp] theorem rows_withBackend (w : World) (id : BackendId) (b : Backend) (table : String) :
    (w.withBackend id b).rows table = w.rows table := rfl

@[simp] theorem rows_note (w : World) (e : Event) (table : String) :
    (w.note e).rows table = w.rows table := rfl

@[simp] theorem backends_withRows (w : World) (table : String) (rows : List Entity) :
    (w.withRows table rows).backends = w.backends := rfl

@[simp] theorem backends_withBackend (w : World) (id : BackendId) (b : Backend) :
    (w.withBackend id b).backends = w.backends.put id b := rfl

@[simp] theorem backends_note (w : World) (e : Event) : (w.note e).backends = w.backends := rfl

@[simp] theorem trace_withRows (w : World) (table : String) (rows : List Entity) :
    (w.withRows table rows).trace = w.trace := rfl

@[simp] theorem trace_withBackend (w : World) (id : BackendId) (b : Backend) :
    (w.withBackend id b).trace = w.trace := rfl

@[simp] theorem trace_note (w : World) (e : Event) : (w.note e).trace = e :: w.trace := rfl

@[simp] theorem rows_journal (w : World) (backend : BackendId) (c : Change) (table : String) :
    (w.journal backend c).rows table = w.rows table := by
  unfold journal
  split <;> rfl

@[simp] theorem trace_journal (w : World) (backend : BackendId) (c : Change) :
    (w.journal backend c).trace = w.trace := by
  unfold journal
  split <;> rfl

end World

end EntityStore
