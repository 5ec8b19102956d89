import EntityStore.Store.Step

/-!
Calling a backend. A journal has at most one transaction open at a time, and rolls back by playing
what it holds backwards, newest first; a database elsewhere counts its calls and refuses some.
-/

namespace EntityStore

namespace Backend

/-- A call on a journal: opening one that is open is refused, and so is closing one that is not.
A rollback plays the changes backwards. -/
def callJournal (id : BackendId) : Call → Option (List Change) → World → Except Report World
  | .begin, none, w => .ok (w.withBackend id (.journal (some [])))
  | .begin, some _, _ => .error (.plain s!"transaction already open on {id.name}")
  | .commit, some _, w => .ok (w.withBackend id (.journal none))
  | .rollback, some changes, w =>
    .ok (changes.foldl World.undo (w.withBackend id (.journal none)))
  | _, none, _ => .error (.plain s!"no transaction open on {id.name}")

/-- What a backend does on a call. -/
def answer (id : BackendId) (c : Call) : Step Report Unit := fun w =>
  match w.backends.get? id with
  | some (.journal changes) =>
    match callJournal id c changes w with
    | .ok w => (.ok (), w)
    | .error r => (.error r, w)
  | some (.remote r) =>
    let w := w.withBackend id (.remote { r with calls := r.calls + 1 })
    match r.refusal r.calls c with
    | some text => (.error (.plain text), w)
    | none => (.ok (), w)
  | none => (.error (.plain s!"no backend {id.name}"), w)

def call (id : BackendId) (c : Call) : Step Report Unit := fun w =>
  let (result, w) := answer id c w
  (result, w.note (.call id c result.isOk))

end Backend

end EntityStore
