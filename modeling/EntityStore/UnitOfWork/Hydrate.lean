import EntityStore.UnitOfWork.Basic

/-!
Finding entities together with what belongs to them. The children of every mapped navigation are
found in turn, and theirs, as deep as the data goes; where it goes in circles there is no end, and a
bound on the depth is reported as reached.
-/

namespace EntityStore

/-- Why a search gives no entities. -/
inductive Stop where
  | failed (e : Error)
  /-- There is more below the depth that was allowed. -/
  | tooDeep

/-- A computation in the world that may run too deep. -/
abbrev Search (α : Type) := Step Stop α

/-- A step that fails as it does. -/
def Search.ofStep {α : Type} (x : Step Error α) : Search α := x.adapt Stop.failed

namespace UnitOfWork

variable (u : UnitOfWork)

/-- The children of a parent under a relation, nothing below them. -/
def childrenOf (r : Relation) (parent : Entity) : Search (List Entity) := Search.ofStep do
  let v ← Fallible.ofExcept (r.parent.read parent r.join.parentField)
  let s ← Fallible.ofExcept (u.store r.child)
  s.find (r.join.predicate v)

/-- Fill the mapped navigations of entities, relation by relation, down to a depth. -/
def hydrate : Nat → EntityType → List Entity → Search (List Entity)
  | 0, T, es => if es.isEmpty || (u.relationsOf T).isEmpty then return es else throw .tooDeep
  | depth + 1, T, es => (u.relationsOf T).foldlM (fun es r => es.mapM fun e => do
      let children ← u.childrenOf r e
      let children ← hydrate depth r.child children
      return e.withCollection r.navigation children) es

/-- The entities of a type that satisfy a predicate, hydrated down to a depth. -/
def findWithin (depth : Nat) (T : EntityType) (p : Expr) : Search (List Entity) := do
  let s ← Search.ofStep (Fallible.ofExcept (u.store T))
  let es ← Search.ofStep (s.find p)
  hydrate u depth T es

/-- The only entity of a type that satisfies a predicate, hydrated down to a depth. -/
def findSingleWithin (depth : Nat) (T : EntityType) (p : Expr) : Search Entity := do
  let s ← Search.ofStep (Fallible.ofExcept (u.store T))
  let e ← Search.ofStep (s.findSingle p)
  let es ← hydrate u depth T [e]
  return es.headD e

/-- What a query in the words of the database returns, hydrated down to a depth. -/
def findRawWithin (depth : Nat) (T : EntityType) (sql : String) (values : List Value) :
    Search (List Entity) := do
  let s ← Search.ofStep (Fallible.ofExcept (u.store T))
  let es ← Search.ofStep (s.findRaw sql values)
  hydrate u depth T es

end UnitOfWork

namespace World

/-- The number of answers that are still to come from scripts. -/
def answersLeft (w : World) : Nat :=
  (w.backends.flatMap fun
    | (_, .remote r) => r.script
    | (_, .journal _) => []).length

/-- A depth that data without circles stays within: on the way down a row in memory can come back
only after one more answer was taken from a script. -/
def depth (w : World) : Nat :=
  ((w.tables.flatMap (·.2)).length + 1) * (w.answersLeft + 1) + 1

end World

namespace UnitOfWork

variable (u : UnitOfWork)

/-- The hydrated entities of a type that satisfy a predicate. -/
def find (T : EntityType) (p : Expr) : Search (List Entity) := do
  u.findWithin (← get).depth T p

/-- The only hydrated entity of a type that satisfies a predicate. -/
def findSingle (T : EntityType) (p : Expr) : Search Entity := do
  u.findSingleWithin (← get).depth T p

/-- The hydrated entities that a query in the words of the database returns. -/
def findRaw (T : EntityType) (sql : String) (values : List Value) : Search (List Entity) := do
  u.findRawWithin (← get).depth T sql values

end UnitOfWork

end EntityStore
