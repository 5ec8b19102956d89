import EntityStore.Store.Step

/-!
Running statements on a connection. Each takes the next answer of the script; when it is used up,
answers are empty.
-/

namespace EntityStore

open Sql

namespace Connection

/-- Take the next answer of the script. -/
def answer (name : String) : Step Report Reply := fun w =>
  match w.backends.get? (.connection name) with
  | some (.remote r) =>
    let w := w.withBackend (.connection name) (.remote { r with script := r.script.drop 1 })
    let reply := r.script.headD {}
    match reply.failure with
    | some report => (.error report, w)
    | none => (.ok reply, w)
  | _ => (.error (.plain s!"no connection {name}"), w)

def run (name : String) (mode : Mode) (sql : String) (bindings : List Binding) :
    Step Report Reply := fun w =>
  let (result, w) := answer name w
  (result, w.note (.statement name mode sql bindings result.isOk))

def query (name sql : String) (bindings : List Binding) : Step Report (List Row) := do
  return (← run name .query sql bindings).rows

/-- The number of rows a statement affected. -/
def exec (name sql : String) (bindings : List Binding) : Step Report Nat := do
  return (← run name .exec sql bindings).affected

def executeBatch (name sql : String) : Step Report Unit := do
  discard <| run name .batch sql []

/-- An insert and the key it generated: the first value that comes back, from the insert itself
or from the query after it. -/
def insert (name sql : String) (bindings : List Binding) (d : Dialect) : Step Report Value := do
  let rows ← if d.identityBatched then query name sql bindings
    else do
      discard <| exec name sql bindings
      query name d.identity []
  match rows with
  | ((_, v) :: _) :: _ => return v
  | _ => throw (.plain "insert returned no identity")

end Connection

end EntityStore
