import EntityStore.Proofs.Triple
import EntityStore.UnitOfWork.Commit
import EntityStore.UnitOfWork.Hydrate

/-!
Buffers apart from the rest. A unit of work finds its stores by their types and goes along its
relations; what is buffered plays no part in how it searches, nor in how it writes the batches that
it is given.
-/

namespace EntityStore

open Fallible

namespace UnitOfWork

variable (u : UnitOfWork) (tx : Transaction)

lemma store?_clear (name : String) : u.clear.store? name = (u.store? name).map DataStore.clear := by
  rw [store?, clear, List.find?_map]
  rfl

lemma store_clear (T : EntityType) : u.clear.store T = (u.store T).map DataStore.clear := by
  rw [store, store, store?_clear]
  rcases u.store? T.name with _ | s <;> rfl

/-! ### Searches -/

lemma childrenOf_clear : u.clear.childrenOf = u.childrenOf := by
  funext r e
  rw [childrenOf, childrenOf, store_clear]
  rcases u.store r.child with err | s <;> rfl

lemma hydrate_clear (depth : Nat) : u.clear.hydrate depth = u.hydrate depth := by
  induction depth with
  | zero => rfl
  | succ depth ih =>
    funext T es
    rw [hydrate, hydrate, ih, childrenOf_clear]
    rfl

lemma find_clear : u.clear.find = u.find := by
  funext T p w
  rw [find, find, bind_of_ok (get_apply w), bind_of_ok (get_apply w), findWithin, findWithin,
    store_clear, hydrate_clear]
  rcases u.store T with err | s <;> rfl

lemma findSingle_clear : u.clear.findSingle = u.findSingle := by
  funext T p w
  rw [findSingle, findSingle, bind_of_ok (get_apply w), bind_of_ok (get_apply w), findSingleWithin,
    findSingleWithin, store_clear, hydrate_clear]
  rcases u.store T with err | s <;> rfl

/-! ### Writes -/

lemma write_clear : u.clear.write tx = u.write tx := by
  funext phase op T e
  rw [write, write, store_clear]
  rcases u.store T with err | s <;> rfl

lemma writeChildren_clear : u.clear.writeChildren tx = u.writeChildren tx := by
  have hchild : u.clear.writeChild tx = u.writeChild tx := by
    funext below phase r s v e
    unfold writeChild
    rw [write_clear]
  funext below phase parent r
  rw [writeChildren, writeChildren, store_clear, hchild]
  rcases u.store r.child with err | s <;> rfl

lemma cascadeWithin_clear (levels : Nat) :
    u.clear.cascadeWithin tx levels = u.cascadeWithin tx levels := by
  induction levels with
  | zero => rfl
  | succ levels ih =>
    funext phase T e
    rw [cascadeWithin, cascadeWithin, ih, writeChildren_clear]
    rfl

lemma applyAll_clear : u.clear.applyAll tx = u.applyAll tx := by
  have hcascade : u.clear.cascade tx = u.cascade tx := by
    funext phase T e
    rw [cascade, cascade, cascadeWithin_clear]
  have htree : u.clear.writeTree tx = u.writeTree tx := by
    funext phase op T e
    unfold writeTree
    rw [hcascade, write_clear]
  have hbatch : u.clear.applyBatch tx = u.applyBatch tx := by
    funext step b
    rw [applyBatch, applyBatch, htree]
  funext bs
  rw [applyAll, applyAll, hbatch]

lemma commitBatches_clear : u.clear.commitBatches tx = u.commitBatches tx := by
  funext first bs w
  rw [commitBatches, commitBatches, applyAndCommit, applyAndCommit, applyAll_clear]

/-! ### Transactions -/

lemma participants_clear : u.clear.participants = u.participants := by
  have hreached : u.clear.newlyReached = u.newlyReached := by
    funext listed T
    simp only [newlyReached, store?_clear, Option.isSome_map]
    rfl
  have hfrom : u.clear.reachFrom = u.reachFrom := by
    funext listed place
    rw [reachFrom, reachFrom, hreached]
  funext types
  rw [participants, participants, hfrom, clear, List.length_map]

lemma openFor_clear : u.clear.openFor = u.openFor := by
  have hshared : u.clear.sharedBackend = u.sharedBackend := by
    funext types
    have hbackend : ∀ T, (u.clear.store? T).bind (·.adapter.backend) =
        (u.store? T).bind (·.adapter.backend) := by
      intro T
      rw [store?_clear]
      rcases u.store? T with _ | s <;> rfl
    simp only [sharedBackend, hbackend]
  funext types
  rw [openFor, openFor, participants_clear, hshared]

end UnitOfWork

end EntityStore
