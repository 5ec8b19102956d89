import EntityStore.Store.Transaction

/-!
A table in memory among the others. It may belong to a backend; what a transaction on that backend
changes in it is journaled there.
-/

namespace EntityStore

/-- A named table in memory and the name of the journal it belongs to. -/
structure MemoryTable where
  name : String
  journalName : Option String

namespace MemoryTable

variable (t : MemoryTable)

def backend : Option BackendId := t.journalName.map .memory

/-- Note what undoes a change, if the change belongs to a transaction on the backend of the
table. -/
def journal (tx : Transaction) (u : Option Undo) (w : World) : World :=
  match t.backend, u with
  | some b, some u => if tx.includes b then w.journal b ⟨t.name, u⟩ else w
  | _, _ => w

def write {α : Type} (tx : Transaction) (f : List Entity → Table.Outcome α) :
    Step Error α := fun w =>
  let o := f (w.rows t.name)
  (o.result, t.journal tx o.undo (w.withRows t.name o.rows))

def read (T : EntityType) (p : Expr) : Step Error (List Entity) := fun w =>
  (Table.select T p (w.rows t.name), w)

end MemoryTable

end EntityStore
