import EntityStore.Fallible
import EntityStore.Store.World

/-!
Steps: computations in the world. To take back what one changed before it failed is the work of a
transaction.
-/

namespace EntityStore

/-- A computation in the world. -/
abbrev Step (ε α : Type) := Fallible World ε α

namespace Step

variable {α : Type}

/-- Say what was being done when a report came. -/
def context (text : String) (x : Step Report α) : Step Report α := x.adapt (Report.context text)

/-- Let the report of a failure become an error. -/
def reported (x : Step Report α) : Step Error α := x.adapt Report.toError

/-- Let a failure be one of the backend. -/
def executed (x : Step Report α) : Step Error α := x.adapt Error.backendExecution

end Step

end EntityStore
