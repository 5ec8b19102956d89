import EntityStore.Store.Backend

/-!
Transactions. A handle without a backend lets each write stand for itself. An open one ends by a
commit or a rollback, and is rolled back when it is dropped.
-/

namespace EntityStore

/-- A handle passed along with writes. -/
structure Transaction where
  backend : Option BackendId
deriving DecidableEq, Repr

namespace Transaction

/-- The handle of writes outside any transaction. -/
def autocommit : Transaction := ⟨none⟩

def begin (backend : BackendId) : Step Error Transaction := do
  Step.executed (Backend.call backend .begin)
  return ⟨some backend⟩

def isActive (tx : Transaction) : Bool := tx.backend.isSome

/-- Whether writes on the backend belong to the transaction. -/
def includes (tx : Transaction) (backend : BackendId) : Bool := tx.backend == some backend

/-- Call the backend of an open handle. -/
def close (tx : Transaction) (c : Call) : Step Error Unit :=
  match tx.backend with
  | some backend => Step.executed (Backend.call backend c)
  | none => return

/-- Roll back and pass over a refusal. -/
def drop (tx : Transaction) : Step Error Unit :=
  try tx.close .rollback catch _ => return

/-- Commit and leave a handle that is closed; after a refusal the old one is still open. -/
def tryCommit (tx : Transaction) : Step Error Transaction := do
  tx.close .commit
  return .autocommit

/-- Commit, or drop the handle where that is refused. -/
def commit (tx : Transaction) : Step Error Unit :=
  try discard tx.tryCommit catch e => do
    tx.drop
    throw e

def rollback (tx : Transaction) : Step Error Unit := tx.close .rollback

end Transaction

end EntityStore
