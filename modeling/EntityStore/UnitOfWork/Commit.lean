import EntityStore.UnitOfWork.Cascade

/-!
Committing what is buffered: all inserts, then all updates, then all deletes, each through the
stores in the order of their registration. Where every store that takes part reports the same
backend this happens in one transaction.
-/

namespace EntityStore

/-- The writes taken out of one store. -/
structure Batch where
  type : EntityType
  pending : List Pending

/-- What a commit did. -/
structure Committed where
  /-- Writes made, those below buffered entities included. -/
  applied : Nat
  /-- The inserted entities by type, with the keys they were given. -/
  inserted : Named (List Entity)

def Committed.insertedOf (c : Committed) (T : EntityType) : List Entity :=
  (c.inserted.get? T.name).getD []

/-- The phases in order, each with the writes that it makes. -/
def Phase.schedule : List (Phase × Operation) :=
  [(.insert, .insert), (.update, .update), (.delete, .delete)]

/-- The entities a batch inserts. -/
def Batch.inserted (b : Batch) : String × List Entity :=
  (b.type.name, (b.pending.filter (·.op = .insert)).map Pending.entity)

namespace UnitOfWork

variable (u : UnitOfWork)

/-- The buffered writes, of the stores that have any. -/
def batches : List Batch :=
  (u.stores.filter (!·.pending.isEmpty)).map fun s => ⟨s.type, s.pending⟩

/-- The registered types with parents of the given one, of those that are not listed yet. -/
def newlyReached (listed : List String) (T : String) : List String :=
  (u.relations.filter (·.parent.name = T)).foldl (fun found r =>
    if (u.store? r.child.name).isSome && !(listed ++ found).contains r.child.name then
      found ++ [r.child.name]
    else found) []

/-- List what is reached from the type at a place of the list. -/
def reachFrom (listed : List String) (place : Nat) : List String :=
  match listed[place]? with
  | some T => listed ++ u.newlyReached listed T
  | none => listed

/-- The registered types that a commit of the given ones may write to: those types and all that are
reached from them along relations. No type is listed twice, so there are no more places than
stores. -/
def participants (types : List String) : List String :=
  (List.range u.stores.length).foldl u.reachFrom types

/-- The backend of all the types, if each reports one and it is the same. -/
def sharedBackend (types : List String) : Option BackendId :=
  match types.map fun T => (u.store? T).bind (·.adapter.backend) with
  | some b :: rest => if rest.all (· == some b) then some b else none
  | _ => none

/-- Make the writes of one kind in a batch. -/
def applyBatch (tx : Transaction) (step : Phase × Operation) (b : Batch) : Committing Batch := do
  let pending ← b.pending.mapM fun p =>
    if p.op = step.2 then return { p with entity := ← u.writeTree tx step.1 step.2 b.type p.entity }
    else return p
  return { b with pending }

def applyAll (tx : Transaction) (batches : List Batch) : Committing (List Batch) :=
  Phase.schedule.foldlM (fun bs step => bs.mapM (u.applyBatch tx step)) batches

/-- Make all writes and commit the transaction. A refusal at the end is put down to the first type
with buffered writes. -/
def applyAndCommit (tx : Transaction) (first : String) (batches : List Batch) :
    Committing (List Batch) := do
  let batches ← u.applyAll tx batches
  discard <| Committing.ofStep first .commit tx.tryCommit
  return batches

/-- Roll back what a failed commit has written, if there is a transaction to do it. -/
def undoWrites (tx : Transaction) (w : World) : Bool × World :=
  if tx.isActive then
    match tx.rollback w with
    | (.ok _, w) => (true, w)
    | (.error _, w) => (false, w)
  else (false, w)

def openFor (types : List String) : Step Error Transaction :=
  match u.sharedBackend (u.participants types) with
  | some backend => Transaction.begin backend
  | none => return .autocommit

/-- Write the batches in an open transaction, or roll it back. -/
def commitBatches (tx : Transaction) (first : String) (batches : List Batch) :
    Step Error Committed := fun w =>
  match u.applyAndCommit tx first batches { world := w } with
  | (.ok batches, p) => (.ok ⟨p.applied, batches.map Batch.inserted⟩, p.world)
  | (.error h, p) =>
    let (rolledBack, w) := undoWrites tx p.world
    (.error (.commit p.applied rolledBack h.entity h.phase h.error), w)

def commitBuffered : Step Error Committed := do
  match u.batches with
  | [] => return ⟨0, []⟩
  | b :: bs =>
    let tx ← u.openFor ((b :: bs).map (·.type.name))
    u.commitBatches tx b.type.name (b :: bs)

/-- Commit what is buffered. Whatever comes of it, the buffers are empty afterwards. -/
def commit : Step Error Committed × UnitOfWork := (u.commitBuffered, u.clear)

end UnitOfWork

end EntityStore
