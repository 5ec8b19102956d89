import EntityStore.Store.Adapter

/-!
A data store buffers writes in front of an adapter until a session commits them. Reads go straight
to the adapter and see nothing of the buffer.
-/

namespace EntityStore

/-- A buffered write with the entity as it was then. -/
structure Pending where
  op : Operation
  entity : Entity

/-- An adapter and the writes waiting for it, in the order of their recording. -/
structure DataStore where
  adapter : Adapter
  pending : List Pending := []

namespace DataStore

variable (s : DataStore)

def type : EntityType := s.adapter.type

def buffer (op : Operation) (e : Entity) : DataStore := { s with pending := s.pending ++ [⟨op, e⟩] }

def clear : DataStore := { s with pending := [] }

def find (p : Expr) : Step Error (List Entity) := s.adapter.read p

/-- The only stored entity that satisfies a predicate. -/
def findSingle (p : Expr) : Step Error Entity := do
  match ← s.find p with
  | [] => throw (.notFound s.type.name)
  | [e] => return e
  | es => throw (.ambiguousResult s.type.name es.length)

/-- The entities a query in the words of the database returns. -/
def findRaw (sql : String) (values : List Value) : Step Error (List Entity) :=
  s.adapter.readRaw sql values

end DataStore

end EntityStore
