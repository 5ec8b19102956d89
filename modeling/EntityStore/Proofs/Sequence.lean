import EntityStore.Proofs.Attempts
import EntityStore.Proofs.WritePlan

/-!
How far writes get in the order of a commit. At every point the first of them have been made, each
with what the ones before it left: an entity before what hangs below it, relation by relation and
child by child, or after it where it is deleted. Where a step fails the commit stops there: the next
write is refused, or a child cannot be written, since its type has no store or it cannot be given
the value that joins it to its parent.
-/

namespace EntityStore

open Fallible

/-! ### Writes in a row -/

namespace Attempts

variable {tx : Transaction} {w w₁ w₂ : World} {xs ys : List Attempt}

lemma append (h : Attempts tx w xs w₁) (h' : Attempts tx w₁ ys w₂) :
    Attempts tx w (xs ++ ys) w₂ := by
  induction h' with
  | nil => simpa using h
  | snoc _ last ih =>
    rw [← List.append_assoc]
    exact ih.snoc last

lemma one {s : DataStore} {op : Operation} {e : Entity} {result : Except Error Entity}
    (h : s.adapter.write tx op e w = (result, w₁)) : Attempts tx w [⟨s, op, e, result⟩] w₁ :=
  Attempts.nil.snoc h

end Attempts

namespace UnitOfWork

section Order

variable (u : UnitOfWork)

mutual

/-- The writes are the first for an entity and what hangs below it; where they are all, this is what
they leave. -/
inductive Begins : Operation → EntityType → Entity → List Attempt → Option Entity → Prop
  | stop {op : Operation} {T : EntityType} {e : Entity} : Begins op T e [] none
  | first {op : Operation} {T : EntityType} {e e₁ : Entity} {s : DataStore} {xs : List Attempt}
    {left : Option Entity} (written : op ≠ .delete) (store : u.store? T.name = some s)
    (leaves : s.adapter.Leaves op e e₁) (below : BeginsBelow op (u.relationsOf T) e₁ xs left) :
    Begins op T e (⟨s, op, e, .ok e₁⟩ :: xs) left
  | under {T : EntityType} {e : Entity} {xs : List Attempt} {left : Option Entity}
    (below : BeginsBelow .delete (u.relationsOf T) e xs left) : Begins .delete T e xs none
  | last {T : EntityType} {e e₁ : Entity} {s : DataStore} {xs : List Attempt}
    (store : u.store? T.name = some s)
    (below : BeginsBelow .delete (u.relationsOf T) e xs (some e₁)) :
    Begins .delete T e (xs ++ [⟨s, .delete, e₁, .ok e₁⟩]) (some e₁)

/-- The writes are the first for what hangs below an entity along some relations. -/
inductive BeginsBelow : Operation → List Relation → Entity → List Attempt → Option Entity → Prop
  | stop {op : Operation} {rs : List Relation} {e : Entity} : BeginsBelow op rs e [] none
  | nil {op : Operation} {e : Entity} : BeginsBelow op [] e [] (some e)
  | empty {op : Operation} {r : Relation} {rs : List Relation} {e : Entity} {xs : List Attempt}
    {left : Option Entity} (childless : e.collection r.navigation = [])
    (rest : BeginsBelow op rs e xs left) : BeginsBelow op (r :: rs) e xs left
  | within {op : Operation} {r : Relation} {rs : List Relation} {e : Entity} {xs : List Attempt}
    {left : Option (List Entity)}
    (children : BeginsEach op r e.scalars (e.collection r.navigation) xs left) :
    BeginsBelow op (r :: rs) e xs none
  | after {op : Operation} {r : Relation} {rs : List Relation} {e : Entity} {cs : List Entity}
    {xs ys : List Attempt} {left : Option Entity}
    (children : BeginsEach op r e.scalars (e.collection r.navigation) xs (some cs))
    (rest : BeginsBelow op rs (e.withCollection r.navigation cs) ys left) :
    BeginsBelow op (r :: rs) e (xs ++ ys) left

/-- The writes are the first for children of a parent with the given scalars. -/
inductive BeginsEach : Operation → Relation → Record → List Entity → List Attempt →
    Option (List Entity) → Prop
  | stop {op : Operation} {r : Relation} {parent : Record} {cs : List Entity} :
    BeginsEach op r parent cs [] none
  | nil {op : Operation} {r : Relation} {parent : Record} : BeginsEach op r parent [] [] (some [])
  | within {op : Operation} {r : Relation} {parent : Record} {c c₁ : Entity} {cs : List Entity}
    {xs : List Attempt} {left : Option Entity} (receives : Receives op parent r c c₁)
    (head : Begins (u.childOperation op r c₁) r.child c₁ xs left) :
    BeginsEach op r parent (c :: cs) xs none
  | cons {op : Operation} {r : Relation} {parent : Record} {c c₁ c' : Entity} {cs : List Entity}
    {xs ys : List Attempt} {left : Option (List Entity)} (receives : Receives op parent r c c₁)
    (head : Begins (u.childOperation op r c₁) r.child c₁ xs (some c'))
    (tail : BeginsEach op r parent cs ys left) :
    BeginsEach op r parent (c :: cs) (xs ++ ys) (left.map (c' :: ·))

end

/-- The writes are the first for the entities of a plan. -/
inductive BeginsAll : List (Operation × EntityType × Entity) → List Attempt →
    Option (List (Operation × EntityType × Entity)) → Prop
  | stop {plan : List (Operation × EntityType × Entity)} : BeginsAll plan [] none
  | nil : BeginsAll [] [] (some [])
  | within {op : Operation} {T : EntityType} {e : Entity}
    {plan : List (Operation × EntityType × Entity)} {xs : List Attempt} {left : Option Entity}
    (head : u.Begins op T e xs left) : BeginsAll ((op, T, e) :: plan) xs none
  | cons {op : Operation} {T : EntityType} {e e' : Entity}
    {plan : List (Operation × EntityType × Entity)} {xs ys : List Attempt}
    {left : Option (List (Operation × EntityType × Entity))}
    (head : u.Begins op T e xs (some e')) (tail : BeginsAll plan ys left) :
    BeginsAll ((op, T, e) :: plan) (xs ++ ys) (left.map ((op, T, e') :: ·))

mutual

/-- The writes are the first for an entity and what hangs below it, and then a step fails. Where it
is a write, that is the last. -/
inductive Stops : Phase → Operation → EntityType → Entity → List Attempt → Option Attempt → Halt →
    Prop
  | refused {phase : Phase} {op : Operation} {T : EntityType} {e : Entity} {s : DataStore}
    {err : Error} (written : op ≠ .delete) (store : u.store? T.name = some s) :
    Stops phase op T e [] (some ⟨s, op, e, .error err⟩) ⟨T.name, phase, err⟩
  | first {phase : Phase} {op : Operation} {T : EntityType} {e e₁ : Entity} {s : DataStore}
    {xs : List Attempt} {failed : Option Attempt} {h : Halt} (written : op ≠ .delete)
    (store : u.store? T.name = some s) (leaves : s.adapter.Leaves op e e₁)
    (below : StopsBelow op (u.relationsOf T) e₁ xs failed h) :
    Stops phase op T e (⟨s, op, e, .ok e₁⟩ :: xs) failed h
  | under {phase : Phase} {T : EntityType} {e : Entity} {xs : List Attempt}
    {failed : Option Attempt} {h : Halt}
    (below : StopsBelow .delete (u.relationsOf T) e xs failed h) :
    Stops phase .delete T e xs failed h
  | last {phase : Phase} {T : EntityType} {e e₁ : Entity} {s : DataStore} {xs : List Attempt}
    {err : Error} (store : u.store? T.name = some s)
    (below : BeginsBelow u .delete (u.relationsOf T) e xs (some e₁)) :
    Stops phase .delete T e xs (some ⟨s, .delete, e₁, .error err⟩) ⟨T.name, phase, err⟩

/-- The writes are the first for what hangs below an entity along some relations, and then a step
fails. Where there are children, the value that joins them is read and their store looked up before
the first of them. -/
inductive StopsBelow : Operation → List Relation → Entity → List Attempt → Option Attempt → Halt →
    Prop
  | unreadable {op : Operation} {r : Relation} {rs : List Relation} {e : Entity}
    (children : e.collection r.navigation ≠ [])
    (hidden : r.parent.get e.scalars r.join.parentField = none) :
    StopsBelow op (r :: rs) e [] none
      ⟨r.parent.name, op.phase, .unknownField r.parent.name r.join.parentField⟩
  | unregistered {op : Operation} {r : Relation} {rs : List Relation} {e : Entity} {v : Value}
    (children : e.collection r.navigation ≠ [])
    (value : r.parent.get e.scalars r.join.parentField = some v)
    (missing : u.store? r.child.name = none) :
    StopsBelow op (r :: rs) e [] none
      ⟨r.child.name, op.phase, .unregisteredEntity r.child.name⟩
  | within {op : Operation} {r : Relation} {rs : List Relation} {e : Entity} {v : Value}
    {s : DataStore} {xs : List Attempt} {failed : Option Attempt} {h : Halt}
    (value : r.parent.get e.scalars r.join.parentField = some v)
    (store : u.store? r.child.name = some s)
    (children : StopsEach op r e.scalars (e.collection r.navigation) xs failed h) :
    StopsBelow op (r :: rs) e xs failed h
  | empty {op : Operation} {r : Relation} {rs : List Relation} {e : Entity} {xs : List Attempt}
    {failed : Option Attempt} {h : Halt} (childless : e.collection r.navigation = [])
    (rest : StopsBelow op rs e xs failed h) : StopsBelow op (r :: rs) e xs failed h
  | after {op : Operation} {r : Relation} {rs : List Relation} {e : Entity} {cs : List Entity}
    {xs ys : List Attempt} {failed : Option Attempt} {h : Halt}
    (children : BeginsEach u op r e.scalars (e.collection r.navigation) xs (some cs))
    (rest : StopsBelow op rs (e.withCollection r.navigation cs) ys failed h) :
    StopsBelow op (r :: rs) e (xs ++ ys) failed h

/-- The writes are the first for children of a parent with the given scalars, and then a step fails.
A child that is not deleted is given the value of the parent before it is written. -/
inductive StopsEach : Operation → Relation → Record → List Entity → List Attempt →
    Option Attempt → Halt → Prop
  | unassignable {op : Operation} {r : Relation} {parent : Record} {c : Entity} {cs : List Entity}
    {v : Value} {err : Error} (written : op ≠ .delete)
    (value : r.parent.get parent r.join.parentField = some v)
    (refused : r.child.assign c r.join.childField v = .error err) :
    StopsEach op r parent (c :: cs) [] none ⟨r.child.name, op.phase, err⟩
  | head {op : Operation} {r : Relation} {parent : Record} {c c₁ : Entity} {cs : List Entity}
    {xs : List Attempt} {failed : Option Attempt} {h : Halt} (receives : Receives op parent r c c₁)
    (stops : Stops op.phase (u.childOperation op r c₁) r.child c₁ xs failed h) :
    StopsEach op r parent (c :: cs) xs failed h
  | tail {op : Operation} {r : Relation} {parent : Record} {c c₁ c' : Entity} {cs : List Entity}
    {xs ys : List Attempt} {failed : Option Attempt} {h : Halt}
    (receives : Receives op parent r c c₁)
    (head : Begins u (u.childOperation op r c₁) r.child c₁ xs (some c'))
    (tail : StopsEach op r parent cs ys failed h) :
    StopsEach op r parent (c :: cs) (xs ++ ys) failed h

end

/-- The writes are the first for the entities of a plan, and then a step fails. -/
inductive StopsAll : List (Operation × EntityType × Entity) → List Attempt → Option Attempt →
    Halt → Prop
  | head {op : Operation} {T : EntityType} {e : Entity}
    {plan : List (Operation × EntityType × Entity)} {xs : List Attempt} {failed : Option Attempt}
    {h : Halt} (stops : u.Stops op.phase op T e xs failed h) :
    StopsAll ((op, T, e) :: plan) xs failed h
  | tail {op : Operation} {T : EntityType} {e e' : Entity}
    {plan : List (Operation × EntityType × Entity)} {xs ys : List Attempt}
    {failed : Option Attempt} {h : Halt} (head : u.Begins op T e xs (some e'))
    (tail : StopsAll plan ys failed h) : StopsAll ((op, T, e) :: plan) (xs ++ ys) failed h

end Order

variable {u : UnitOfWork}

/-! ### Where writes stop they have begun -/

mutual

lemma Stops.begins {phase : Phase} {op : Operation} {T : EntityType} {e : Entity}
    {xs : List Attempt} {failed : Option Attempt} {h : Halt}
    (hs : u.Stops phase op T e xs failed h) : u.Begins op T e xs none := by
  match hs with
  | .refused _ _ => exact .stop
  | .first written store leaves below => exact .first written store leaves below.begins
  | .under below => exact .under below.begins
  | .last store below => exact .under below

lemma StopsBelow.begins {op : Operation} {rs : List Relation} {e : Entity} {xs : List Attempt}
    {failed : Option Attempt} {h : Halt} (hs : u.StopsBelow op rs e xs failed h) :
    u.BeginsBelow op rs e xs none := by
  match hs with
  | .unreadable _ _ => exact .stop
  | .unregistered _ _ _ => exact .stop
  | .within _ _ children => exact .within children.begins
  | .empty childless rest => exact .empty childless rest.begins
  | .after children rest => exact .after children rest.begins

lemma StopsEach.begins {op : Operation} {r : Relation} {parent : Record} {cs : List Entity}
    {xs : List Attempt} {failed : Option Attempt} {h : Halt}
    (hs : u.StopsEach op r parent cs xs failed h) : u.BeginsEach op r parent cs xs none := by
  match hs with
  | .unassignable _ _ _ => exact .stop
  | .head receives stops => exact .within receives stops.begins
  | .tail receives head tail => exact .cons receives head tail.begins

end

section Plans

variable {plan plan' : List (Operation × EntityType × Entity)} {xs ys : List Attempt}
  {failed : Option Attempt} {h : Halt}

lemma StopsAll.begins (hs : u.StopsAll plan xs failed h) : u.BeginsAll plan xs none := by
  induction hs with
  | head stops => exact .within stops.begins
  | tail head _ ih => exact .cons head ih

/-- A plan that stops does not get to what comes after it. -/
lemma StopsAll.append (hs : u.StopsAll plan xs failed h)
    (plan' : List (Operation × EntityType × Entity)) :
    u.StopsAll (plan ++ plan') xs failed h := by
  induction hs with
  | head stops => exact .head stops
  | tail head _ ih => exact .tail head ih

lemma BeginsAll.append {left left' : List (Operation × EntityType × Entity)}
    (h : u.BeginsAll plan xs (some left)) (h' : u.BeginsAll plan' ys (some left')) :
    u.BeginsAll (plan ++ plan') (xs ++ ys) (some (left ++ left')) := by
  generalize hleft : some left = l at h
  induction h generalizing left with
  | stop => cases hleft
  | nil =>
    cases hleft
    exact h'
  | within head => cases hleft
  | @cons op T e e' plan xs zs l head tail ih =>
    obtain ⟨rest, rfl, rfl⟩ := Option.map_eq_some_iff.mp hleft.symm
    rw [List.cons_append, List.append_assoc]
    exact BeginsAll.cons head (ih rfl)

/-- What comes after a plan stops once all of that has been written. -/
lemma BeginsAll.stops {left : List (Operation × EntityType × Entity)}
    (hb : u.BeginsAll plan xs (some left)) (hs : u.StopsAll plan' ys failed h) :
    u.StopsAll (plan ++ plan') (xs ++ ys) failed h := by
  generalize hleft : some left = l at hb
  induction hb generalizing left with
  | stop => cases hleft
  | nil => exact hs
  | within head => cases hleft
  | @cons op T e e' plan xs zs l head tail ih =>
    obtain ⟨rest, rfl, rfl⟩ := Option.map_eq_some_iff.mp hleft.symm
    rw [List.cons_append, List.append_assoc]
    exact .tail head (ih rfl)

end Plans

/-! ### Writes over declared types -/

/-- Every store keeps its entities in memory. -/
def InMemory (u : UnitOfWork) : Prop := ∀ s ∈ u.stores, ∃ t, s.adapter.storage = .memory t

/-- The write went through a registered store, with an entity of its type. -/
structure Proper (u : UnitOfWork) (Γ : Declarations) (x : Attempt) : Prop where
  store : x.store ∈ u.stores
  has : Γ.Has x.store.type.name x.entity
  ok : x.result.isOk

lemma Proper.result_eq {Γ : Declarations} {x : Attempt} (h : u.Proper Γ x) :
    ∃ e', x.result = .ok e' := by
  have hok := h.ok
  rcases hr : x.result with err | e'
  · rw [hr] at hok
    cases hok
  · exact ⟨e', rfl⟩

section Typed

variable {Γ : Declarations} {op : Operation} {T : EntityType} {e e₁ c c₁ : Entity} {r : Relation}

/-- What a write leaves of a well-typed entity is well-typed. -/
lemma Declared.has_leaves (hu : u.Declared Γ) {s : DataStore} (store : u.store? T.name = some s)
    (leaves : s.adapter.Leaves op e e₁) (he : Γ.Has T.name e) : Γ.Has T.name e₁ := by
  have hname := (store?_eq_some store).2
  rw [← hname] at he ⊢
  exact leaves.has (hu.adapter store).1 he

lemma Declared.has_receives (hu : u.Declared Γ) (hr : r ∈ u.relations) {parent : Record}
    (receives : Receives op parent r c c₁) (hc : Γ.Has r.child.name c) :
    Γ.Has r.child.name c₁ := by
  unfold Receives at receives
  split at receives
  · rwa [receives]
  · obtain ⟨v, -, hassign⟩ := receives
    rw [(hu.relations r hr).child] at hassign
    exact hc.assign hassign

lemma proper_of_store {s : DataStore} (store : u.store? T.name = some s) (he : Γ.Has T.name e) :
    u.Proper Γ ⟨s, op, e, .ok e₁⟩ := by
  obtain ⟨hmem, hname⟩ := store?_eq_some store
  exact ⟨hmem, hname ▸ he, rfl⟩

mutual

/-- The writes for a well-typed entity are of well-typed ones, and leave one. -/
lemma Begins.proper (hu : u.Declared Γ) {op : Operation} {T : EntityType} {e : Entity}
    {xs : List Attempt} {left : Option Entity} (hb : u.Begins op T e xs left) :
    Γ.Has T.name e → (∀ x ∈ xs, u.Proper Γ x) ∧ ∀ e' ∈ left, Γ.Has T.name e' := by
  match hb with
  | .stop => simp
  | .first _ store leaves below =>
    intro he
    obtain ⟨hxs, hleft⟩ := below.proper hu (fun _ hr => hr) (hu.has_leaves store leaves he)
    exact ⟨List.forall_mem_cons.mpr ⟨proper_of_store store he, hxs⟩, hleft⟩
  | .under below =>
    intro he
    exact ⟨(below.proper hu (fun _ hr => hr) he).1, by simp⟩
  | .last store below =>
    intro he
    obtain ⟨hxs, hleft⟩ := below.proper hu (fun _ hr => hr) he
    refine ⟨List.forall_mem_append.mpr ⟨hxs, fun x hx => ?_⟩, hleft⟩
    rw [List.mem_singleton.mp hx]
    exact proper_of_store store (hleft _ rfl)

lemma BeginsBelow.proper (hu : u.Declared Γ) {op : Operation} {T : EntityType}
    {rs : List Relation} {e : Entity} {xs : List Attempt} {left : Option Entity}
    (hb : u.BeginsBelow op rs e xs left) : (∀ r ∈ rs, r ∈ u.relationsOf T) → Γ.Has T.name e →
      (∀ x ∈ xs, u.Proper Γ x) ∧ ∀ e' ∈ left, Γ.Has T.name e' := by
  match hb with
  | .stop => simp
  | .nil => simp
  | .empty _ rest => exact fun hrs he => rest.proper hu (fun q hq => hrs q (by simp [hq])) he
  | .within children =>
    intro hrs he
    have hr := hrs _ List.mem_cons_self
    have hcs := children.proper hu (mem_relationsOf.mp hr).1 fun c hc => hu.has_child he hr hc
    exact ⟨hcs.1, by simp⟩
  | .after children rest =>
    intro hrs he
    have hr := hrs _ List.mem_cons_self
    obtain ⟨hxs, hcs⟩ :=
      children.proper hu (mem_relationsOf.mp hr).1 fun c hc => hu.has_child he hr hc
    obtain ⟨hys, hleft⟩ := rest.proper hu (fun q hq => hrs q (by simp [hq]))
      (he.withCollection (hu.navigation hr) (hcs _ rfl))
    exact ⟨List.forall_mem_append.mpr ⟨hxs, hys⟩, hleft⟩

lemma BeginsEach.proper (hu : u.Declared Γ) {op : Operation} {r : Relation} {parent : Record}
    {cs : List Entity} {xs : List Attempt} {left : Option (List Entity)}
    (hb : u.BeginsEach op r parent cs xs left) : r ∈ u.relations →
      (∀ c ∈ cs, Γ.Has r.child.name c) →
      (∀ x ∈ xs, u.Proper Γ x) ∧ ∀ cs' ∈ left, ∀ c ∈ cs', Γ.Has r.child.name c := by
  match hb with
  | .stop => simp
  | .nil => simp
  | .within receives head =>
    intro hr hcs
    exact ⟨(head.proper hu (hu.has_receives hr receives (hcs _ List.mem_cons_self))).1, by simp⟩
  | .cons receives head tail =>
    intro hr hcs
    obtain ⟨hxs, hc'⟩ := head.proper hu (hu.has_receives hr receives (hcs _ List.mem_cons_self))
    obtain ⟨hys, hleft⟩ := tail.proper hu hr fun x hx => hcs x (by simp [hx])
    refine ⟨List.forall_mem_append.mpr ⟨hxs, hys⟩, fun cs' hcs' => ?_⟩
    obtain ⟨rest, hrest, rfl⟩ := Option.map_eq_some_iff.mp hcs'
    exact List.forall_mem_cons.mpr ⟨hc' _ rfl, hleft rest hrest⟩

end

mutual

/-- The write that fails is of a well-typed entity, too. -/
lemma Stops.has (hu : u.Declared Γ) {phase : Phase} {op : Operation} {T : EntityType} {e : Entity}
    {xs : List Attempt} {failed : Option Attempt} {h : Halt}
    (hs : u.Stops phase op T e xs failed h) :
    Γ.Has T.name e → ∀ x ∈ failed, Γ.Has x.store.type.name x.entity := by
  match hs with
  | .refused _ store =>
    intro he x hx
    cases hx
    exact (store?_eq_some store).2 ▸ he
  | .first _ store leaves below =>
    exact fun he => below.has hu (fun _ hr => hr) (hu.has_leaves store leaves he)
  | .under below => exact below.has hu fun _ hr => hr
  | .last store below =>
    intro he x hx
    cases hx
    exact (store?_eq_some store).2 ▸ (below.proper hu (fun _ hr => hr) he).2 _ rfl

lemma StopsBelow.has (hu : u.Declared Γ) {op : Operation} {T : EntityType} {rs : List Relation}
    {e : Entity} {xs : List Attempt} {failed : Option Attempt} {h : Halt}
    (hs : u.StopsBelow op rs e xs failed h) : (∀ r ∈ rs, r ∈ u.relationsOf T) → Γ.Has T.name e →
      ∀ x ∈ failed, Γ.Has x.store.type.name x.entity := by
  match hs with
  | .unreadable _ _ => simp
  | .unregistered _ _ _ => simp
  | .within _ _ children =>
    intro hrs he
    have hr := hrs _ List.mem_cons_self
    exact children.has hu (mem_relationsOf.mp hr).1 fun c hc => hu.has_child he hr hc
  | .empty _ rest => exact fun hrs he => rest.has hu (fun q hq => hrs q (by simp [hq])) he
  | .after children rest =>
    intro hrs he
    have hr := hrs _ List.mem_cons_self
    have hcs := children.proper hu (mem_relationsOf.mp hr).1 fun c hc => hu.has_child he hr hc
    exact rest.has hu (fun q hq => hrs q (by simp [hq]))
      (he.withCollection (hu.navigation hr) (hcs.2 _ rfl))

lemma StopsEach.has (hu : u.Declared Γ) {op : Operation} {r : Relation} {parent : Record}
    {cs : List Entity} {xs : List Attempt} {failed : Option Attempt} {h : Halt}
    (hs : u.StopsEach op r parent cs xs failed h) : r ∈ u.relations →
      (∀ c ∈ cs, Γ.Has r.child.name c) → ∀ x ∈ failed, Γ.Has x.store.type.name x.entity := by
  match hs with
  | .unassignable _ _ _ => simp
  | .head receives stops =>
    exact fun hr hcs => stops.has hu (hu.has_receives hr receives (hcs _ List.mem_cons_self))
  | .tail _ _ tail => exact fun hr hcs => tail.has hu hr fun x hx => hcs x (by simp [hx])

end

variable {plan : List (Operation × EntityType × Entity)} {xs : List Attempt}

lemma BeginsAll.proper (hu : u.Declared Γ)
    {left : Option (List (Operation × EntityType × Entity))} (hb : u.BeginsAll plan xs left)
    (hplan : ∀ x ∈ plan, Γ.Has x.2.1.name x.2.2) : ∀ x ∈ xs, u.Proper Γ x := by
  induction hb with
  | stop => simp
  | nil => simp
  | within head => exact (head.proper hu (hplan _ List.mem_cons_self)).1
  | cons head tail ih =>
    have htail := ih fun y hy => hplan y (by simp [hy])
    exact List.forall_mem_append.mpr ⟨(head.proper hu (hplan _ List.mem_cons_self)).1, htail⟩

lemma StopsAll.has (hu : u.Declared Γ) {failed : Option Attempt} {h : Halt}
    (hs : u.StopsAll plan xs failed h) (hplan : ∀ x ∈ plan, Γ.Has x.2.1.name x.2.2) :
    ∀ x ∈ failed, Γ.Has x.store.type.name x.entity := by
  induction hs with
  | head stops => exact stops.has hu (hplan _ List.mem_cons_self)
  | tail head _ ih => exact ih fun y hy => hplan y (by simp [hy])

end Typed

end UnitOfWork

end EntityStore
