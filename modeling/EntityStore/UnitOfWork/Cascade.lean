import EntityStore.UnitOfWork.Basic

/-!
Writing entities together with what hangs below them. Children follow their parent in an insert or
update, once their field has the parent's value, and go before it in a delete. A child of an update
that has no key yet is created, with everything below it.
-/

namespace EntityStore

/-- A commit that stops: the entity, the phase and the cause. -/
structure Halt where
  entity : String
  phase : Phase
  error : Error

/-- How far a commit has come. -/
structure Progress where
  world : World
  /-- Writes made so far. -/
  applied : Nat := 0

/-- A part of a commit. -/
abbrev Committing (α : Type) := Fallible Progress Halt α

namespace Committing

/-- A step on behalf of an entity. -/
def ofStep {α : Type} (entity : String) (phase : Phase) (x : Step Error α) :
    Committing α := fun p =>
  match x p.world with
  | (.ok a, w) => (.ok a, { p with world := w })
  | (.error e, w) => (.error ⟨entity, phase, e⟩, { p with world := w })

/-- A result on behalf of an entity. -/
def ofExcept {α : Type} (entity : String) (phase : Phase) (x : Except Error α) : Committing α :=
  ofStep entity phase (Fallible.ofExcept x)

end Committing

/-- Make one write through an adapter; an insert may give the entity its key. -/
def Adapter.write (a : Adapter) (tx : Transaction) (op : Operation) (e : Entity) :
    Step Error Entity :=
  match op with
  | .insert => a.create tx e
  | .update => do
    a.update tx e
    return e
  | .delete => do
    a.delete tx e
    return e

namespace UnitOfWork

variable (u : UnitOfWork) (tx : Transaction)

/-- Make one write and count it. -/
def write (phase : Phase) (op : Operation) (T : EntityType) (e : Entity) : Committing Entity := do
  let s ← Committing.ofExcept T.name phase (u.store T)
  let e ← Committing.ofStep T.name phase (s.adapter.write tx op e)
  modify fun p => { p with applied := p.applied + 1 }
  return e

/-- One child below a parent whose joined field has the value `v`. `below` writes what hangs below
the child, in the phase it is told. -/
def writeChild (below : Phase → EntityType → Entity → Committing Entity) (phase : Phase)
    (r : Relation) (s : Schema) (v : Value) (e : Entity) : Committing Entity :=
  match phase with
  | .insert => do
    let e ← Committing.ofExcept r.child.name phase (r.child.assign e r.join.childField v)
    let e ← u.write tx phase .insert r.child e
    below phase r.child e
  | .update => do
    let e ← Committing.ofExcept r.child.name phase (r.child.assign e r.join.childField v)
    if s.isTransient r.child e then
      let e ← u.write tx phase .insert r.child e
      below .insert r.child e
    else
      let e ← u.write tx phase .update r.child e
      below phase r.child e
  | .delete => do
    let e ← below phase r.child e
    u.write tx phase .delete r.child e
  | .commit => return e

/-- The children under one relation. Where there are none, nothing is read or looked up. -/
def writeChildren (below : Phase → EntityType → Entity → Committing Entity) (phase : Phase)
    (parent : Entity) (r : Relation) : Committing Entity := do
  let children := parent.collection r.navigation
  if children.isEmpty then return parent
  else
    let v ← Committing.ofExcept r.parent.name phase (r.parent.read parent r.join.parentField)
    let s ← Committing.ofExcept r.child.name phase (u.store r.child)
    let children ← children.mapM (u.writeChild tx below phase r s.adapter.schema v)
    return parent.withCollection r.navigation children

/-- Everything below an entity, down to a number of levels. -/
def cascadeWithin : Nat → Phase → EntityType → Entity → Committing Entity
  | 0, _, _, e => return e
  | levels + 1, phase, T, e =>
    (u.relationsOf T).foldlM (u.writeChildren tx (cascadeWithin levels) phase) e

/-- Everything below an entity. Writes keep the shape of a tree, so its height suffices. -/
def cascade (phase : Phase) (T : EntityType) (e : Entity) : Committing Entity :=
  u.cascadeWithin tx e.height phase T e

/-- An entity and everything below it. -/
def writeTree (phase : Phase) (op : Operation) (T : EntityType) (e : Entity) :
    Committing Entity := do
  match op with
  | .delete =>
    let e ← u.cascade tx phase T e
    u.write tx phase op T e
  | _ =>
    let e ← u.write tx phase op T e
    u.cascade tx phase T e

end UnitOfWork

end EntityStore
