import EntityStore.Proofs.Participation
import EntityStore.Proofs.Trace

/-!
The writes of a commit as they are attempted: one after another, each in the world that the one
before it has left. Between them nothing happens, and the first that fails is the last.

A write changes the table of its adapter and the journal of the transaction, or speaks over a
connection. None of this opens or closes a transaction.
-/

namespace EntityStore

open Fallible

/-- The event tells of a call on a backend. -/
def Event.isCall : Event → Bool
  | .call .. => true
  | _ => false

namespace World

/-- What the trace tells of, oldest first. -/
def log (w : World) : List Event := w.trace.reverse

variable {w w' : World}

lemma log_note (e : Event) : (w.note e).log = w.log ++ [e] := List.reverse_cons

lemma log_congr (h : w'.trace = w.trace) : w'.log = w.log := by
  rw [log, log, h]

/-- From one world to the other no call was made. -/
def Uncalled (w w' : World) : Prop :=
  ∃ events, w'.log = w.log ++ events ∧ ∀ e ∈ events, e.isCall = false

lemma Uncalled.of_trace_eq (h : w'.trace = w.trace) : w.Uncalled w' :=
  ⟨[], by rw [log_congr h, List.append_nil], by simp⟩

lemma Uncalled.trans {w'' : World} (h : w.Uncalled w') (h' : w'.Uncalled w'') : w.Uncalled w'' := by
  obtain ⟨events, he, hn⟩ := h
  obtain ⟨events', he', hn'⟩ := h'
  refine ⟨events ++ events', by rw [he', he, List.append_assoc], fun e h => ?_⟩
  rcases List.mem_append.mp h with h | h
  · exact hn e h
  · exact hn' e h

lemma Spoke.uncalled (h : w.Spoke w') : w.Uncalled w' := by
  obtain ⟨events, ht, hs⟩ := h.trace
  refine ⟨events.reverse, by rw [log, log, ht, List.reverse_append], fun e he => ?_⟩
  have hstatement := hs e (List.mem_reverse.mp he)
  cases e with
  | statement => rfl
  | call => cases hstatement
  | write => cases hstatement

/-- Nothing happened but that a write may have been announced. -/
def Announced (w w' : World) : Prop :=
  w' = w ∨ ∃ guard op entity key row, w' = w.note (.write guard op entity key row)

lemma Announced.uncalled (h : w.Announced w') : w.Uncalled w' := by
  rcases h with rfl | ⟨guard, op, entity, key, row, rfl⟩
  · exact .of_trace_eq rfl
  · refine ⟨[_], log_note _, fun e he => ?_⟩
    obtain rfl := List.mem_singleton.mp he
    rfl

lemma Announced.rows_eq (h : w.Announced w') : w'.rows = w.rows := by
  rcases h with rfl | ⟨guard, op, entity, key, row, rfl⟩ <;> rfl

lemma Announced.backends_eq (h : w.Announced w') : w'.backends = w.backends := by
  rcases h with rfl | ⟨guard, op, entity, key, row, rfl⟩ <;> rfl

end World

/-! ### One write -/

namespace Table

variable {T : EntityType} {s : Schema} {e : Entity} {rows : List Entity}

/-- A change that goes through says how it is undone. -/
def Outcome.Told {α : Type} (o : Outcome α) (rows : List Entity) : Prop :=
  o.result.isOk → o.undo = none → o.rows = rows

lemma create_told : (create T s e rows).Told rows := by
  unfold create
  split
  · intro _ h; cases h
  · intro h; cases h

lemma update_told : (update T s e rows).Told rows := by
  unfold update
  split
  · intro h; cases h
  · split
    · intro _ _; rfl
    · split
      · intro _ h; cases h
      · intro h; cases h

lemma delete_told : (delete T s e rows).Told rows := by
  unfold delete
  split
  · intro h; cases h
  · split
    · intro _ _; rfl
    · intro _ h; cases h

end Table

/-- A change is added to the journal of the transaction, or to none. -/
lemma MemoryTable.journal_cases (t : MemoryTable) (tx : Transaction) (undo : Option Undo)
    (w : World) : t.journal tx undo w = w ∨
      ∃ b u, tx.backend = some b ∧ t.journal tx undo w = w.journal b ⟨t.name, u⟩ := by
  unfold MemoryTable.journal
  split
  · rename_i b u _
    split
    · rename_i hb
      exact .inr ⟨b, u, by simpa [Transaction.includes] using hb, rfl⟩
    · exact .inl rfl
  · exact .inl rfl

namespace Adapter

/-- All that a write can do, by whether it goes through: it stops when it is announced, or it
changes the rows of the table in memory, or it speaks over the connection. -/
inductive Effect (a : Adapter) (tx : Transaction) (w : World) : Bool → World → Prop
  | stopped {w₁ : World} (announced : w.Announced w₁) : Effect a tx w false w₁
  | memory {t : MemoryTable} {w₁ : World} {ok : Bool} {rows : List Entity} {undo : Option Undo}
    (storage : a.storage = .memory t) (announced : w.Announced w₁)
    (told : ok → undo = none → rows = w.rows t.name) :
    Effect a tx w ok (t.journal tx undo (w₁.withRows t.name rows))
  | sql {t : SqlTable} {w₁ w₂ : World} {ok : Bool} (storage : a.storage = .sql t)
    (announced : w.Announced w₁) (spoke : w₁.Spoke w₂) : Effect a tx w ok w₂

variable {a : Adapter} {tx : Transaction} {op : Operation} {e : Entity} {w w' : World}

section Storage

variable {α : Type} {f : MemoryTable → List Entity → Table.Outcome α} {g : SqlTable → Step Error α}
  {x y : Step Error α}

/-- What is announced is made where the entities are kept. -/
lemma effect_of_storage (hf : ∀ t rows, (f t rows).Told rows) (hg : ∀ t, Talks (g t))
    (hy : y = match a.storage with
      | .memory t => t.write tx (f t)
      | .sql t => g t) {w₁ : World} (h₁ : w.Announced w₁) :
    a.Effect tx w (y w₁).1.isOk (y w₁).2 := by
  rcases hs : a.storage with t | t
  · rw [hy, hs]
    refine .memory hs h₁ fun hok hundo => ?_
    rw [← h₁.rows_eq]
    exact hf t _ hok hundo
  · rw [hy, hs]
    exact .sql hs h₁ (hg t w₁)

lemma effect_of_announce (hf : ∀ t rows, (f t rows).Told rows) (hg : ∀ t, Talks (g t))
    (hy : y = match a.storage with
      | .memory t => t.write tx (f t)
      | .sql t => g t) (hx : x = a.announce op e >>= fun _ => y) :
    a.Effect tx w (x w).1.isOk (x w).2 := by
  rw [hx, bind_apply]
  rcases a.announce_cases op e w with ⟨err, h⟩ | ⟨err | ok, guard, key, h⟩
  · rw [h]
    exact .stopped (.inl rfl)
  · rw [h]
    exact .stopped (.inr ⟨_, _, _, _, _, rfl⟩)
  · rw [h]
    exact effect_of_storage hf hg hy (.inr ⟨_, _, _, _, _, rfl⟩)

end Storage

/-- To hand back something else does not change what a step does. -/
lemma effect_bind_pure {α β : Type} {x : Step Error α} {b : β}
    (h : a.Effect tx w (x w).1.isOk (x w).2) :
    a.Effect tx w ((x >>= fun _ => pure b : Step Error β) w).1.isOk
      ((x >>= fun _ => pure b : Step Error β) w).2 := by
  rw [bind_apply]
  rcases hr : x w with ⟨err | r, w'⟩
  · rw [hr] at h; exact h
  · rw [hr] at h; exact h

/-- What a write does, whatever comes of it. -/
lemma write_effect (a : Adapter) (tx : Transaction) (op : Operation) (e : Entity) (w : World) :
    a.Effect tx w (a.write tx op e w).1.isOk (a.write tx op e w).2 := by
  cases op with
  | insert =>
    exact effect_of_announce (fun _ _ => Table.create_told) (fun t => t.talks_create _ _ e) rfl rfl
  | update =>
    refine effect_bind_pure (x := a.update tx e) ?_
    exact effect_of_announce (fun _ _ => Table.update_told) (fun t => t.talks_update _ _ e) rfl rfl
  | delete =>
    refine effect_bind_pure (x := a.delete tx e) ?_
    exact effect_of_announce (fun _ _ => Table.delete_told) (fun t => t.talks_delete _ _ e) rfl rfl

lemma Effect.uncalled {ok : Bool} (h : a.Effect tx w ok w') : w.Uncalled w' := by
  cases h with
  | stopped announced => exact announced.uncalled
  | @memory t w₁ ok rows undo storage announced told =>
    refine announced.uncalled.trans (.of_trace_eq ?_)
    rcases t.journal_cases tx undo (w₁.withRows t.name rows) with h | ⟨b, u, -, h⟩
    · rw [h, World.trace_withRows]
    · rw [h, World.trace_journal, World.trace_withRows]
  | sql storage announced spoke => exact announced.uncalled.trans spoke.uncalled

end Adapter

/-! ### Writes in a row -/

/-- A write through a store, and what came of it. -/
structure Attempt where
  store : DataStore
  op : Operation
  entity : Entity
  result : Except Error Entity

/-- Writes in a row, each in the world that the one before it has left. -/
inductive Attempts (tx : Transaction) (w : World) : List Attempt → World → Prop
  | nil : Attempts tx w [] w
  | snoc {xs : List Attempt} {w₁ w₂ : World} {s : DataStore} {op : Operation} {e : Entity}
    {result : Except Error Entity} (init : Attempts tx w xs w₁)
    (last : s.adapter.write tx op e w₁ = (result, w₂)) :
    Attempts tx w (xs ++ [⟨s, op, e, result⟩]) w₂

/-- None of the writes is a call. -/
lemma Attempts.uncalled {tx : Transaction} {w w' : World} {xs : List Attempt}
    (h : Attempts tx w xs w') : w.Uncalled w' := by
  induction h with
  | nil => exact .of_trace_eq rfl
  | @snoc xs w₁ w₂ s op e result init last ih =>
    have heffect := s.adapter.write_effect tx op e w₁
    rw [last] at heffect
    exact ih.trans heffect.uncalled

namespace UnitOfWork

variable (u : UnitOfWork) (tx : Transaction) (w : World)

/-- The store is registered, and what it keeps takes part in the commit. -/
def Writes (s : DataStore) : Prop := s ∈ u.stores ∧ u.TakesPart s.type.name

/-- Up to now all writes went through, and were counted. -/
def Underway (p : Progress) : Prop :=
  ∃ xs, Attempts tx w xs p.world ∧ (∀ x ∈ xs, u.Writes x.store) ∧ (∀ x ∈ xs, x.result.isOk) ∧
    p.applied = xs.length

/-- The last write failed, and is why the commit stops; those before it went through, and were
counted. -/
def Failed (h : Halt) (p : Progress) : Prop :=
  ∃ xs x, Attempts tx w (xs ++ [x]) p.world ∧ (∀ y ∈ xs ++ [x], u.Writes y.store) ∧
    (∀ y ∈ xs, y.result.isOk) ∧ x.result = .error h.error ∧ p.applied = xs.length

variable {u tx w}

/-- One more write, by whether it goes through. -/
lemma Underway.write {s : DataStore} (hs : u.Writes s) (op : Operation) (e : Entity)
    {entity : String} {phase : Phase} :
    Triple (u.Underway tx w)
      (Committing.ofStep entity phase (s.adapter.write tx op e) >>= fun e' => do
        modify fun p => { p with applied := p.applied + 1 }
        return e')
      (fun _ => u.Underway tx w) (u.Failed tx w) := by
  rintro p ⟨xs, hxs, hstores, hok, hcount⟩
  have hstores' : ∀ result, ∀ y ∈ xs ++ [⟨s, op, e, result⟩], u.Writes y.store := by
    intro result y hy
    rcases List.mem_append.mp hy with hy | hy
    · exact hstores y hy
    · obtain rfl := List.mem_singleton.mp hy
      exact hs
  rw [bind_apply]
  unfold Committing.ofStep
  rcases hw : s.adapter.write tx op e p.world with ⟨err | e', w'⟩
  · exact ⟨xs, _, hxs.snoc hw, hstores' _, hok, rfl, hcount⟩
  · refine ⟨_, hxs.snoc hw, hstores' _, fun y hy => ?_, ?_⟩
    · rcases List.mem_append.mp hy with hy | hy
      · exact hok y hy
      · obtain rfl := List.mem_singleton.mp hy
        rfl
    · rw [List.length_append, ← hcount]
      rfl

/-- A commit makes its writes one after another through stores that take part, up to the first that
fails; other failures come between two writes. -/
lemma keeps_underway (u : UnitOfWork) (tx : Transaction) (w : World) :
    u.Keeps tx (u.Underway tx w) (fun T _ => u.TakesPart T.name)
      (fun h p => u.Underway tx w p ∨ u.Failed tx w h p) where
  halt _ _ hp := .inl hp
  write phase op T e hT := by
    refine (Committing.triple_ofExcept (fun _ _ hp => .inl hp) _).bind_of fun s hs => ?_
    obtain ⟨hmem, hname⟩ := store?_eq_some (store_eq_ok hs)
    have hwrites : u.Writes s := ⟨hmem, hname ▸ hT⟩
    exact (Underway.write hwrites op e).mono (fun _ hp => hp) (fun _ _ hp => ⟨hp, hT⟩)
      fun _ _ hp => .inr hp
  child T e hT r hr hreg c _ := by
    obtain ⟨hr, hname⟩ := mem_relationsOf.mp hr
    exact .child hr (hname ▸ hT) hreg
  assign _ _ _ _ _ hT _ := hT
  collect _ _ hT _ _ _ _ := hT

/-- All writes of a commit, from the world in which its transaction is open. -/
lemma triple_applyAll (u : UnitOfWork) (tx : Transaction) (w : World) :
    Triple (fun p => p = ⟨w, 0⟩) (u.applyAll tx u.batches) (fun _ => u.Underway tx w)
      (fun h p => u.Underway tx w p ∨ u.Failed tx w h p) := by
  have hbatches : ∀ b ∈ u.batches, Keeps.OfBatch (fun T _ => u.TakesPart T.name) b :=
    fun b hb _ _ => takesPart_of_batch hb
  refine ((u.keeps_underway tx w).applyAll hbatches).mono ?_ (fun _ _ h => h.1) fun _ _ h => h
  rintro p rfl
  exact ⟨[], .nil, by simp, by simp, rfl⟩

/-! ### A run -/

/-- How a commit runs. It opens its transaction, makes writes, and commits; where a write or another
step on the way fails, or the commit is refused, it undoes the writes. -/
inductive Run (u : UnitOfWork) (w : World) : Except Error Committed → World → Prop
  | idle (none : u.batches = []) : Run u w (.ok ⟨0, []⟩) w
  | unopened {err : Error} {w' : World} (work : u.batches ≠ [])
    (opened : u.openFor u.types w = (.error err, w')) : Run u w (.error err) w'
  | committed {tx tx' : Transaction} {w₁ w' : World} {p : Progress} {bs : List Batch}
    (work : u.batches ≠ []) (opened : u.openFor u.types w = (.ok tx, w₁))
    (applied : u.applyAll tx u.batches ⟨w₁, 0⟩ = (.ok bs, p)) (writes : u.Underway tx w₁ p)
    (closed : tx.tryCommit p.world = (.ok tx', w')) :
    Run u w (.ok ⟨p.applied, bs.map Batch.inserted⟩) w'
  | halted {tx : Transaction} {w₁ w' : World} {p : Progress} {h : Halt} {rolledBack : Bool}
    (work : u.batches ≠ []) (opened : u.openFor u.types w = (.ok tx, w₁))
    (applied : u.applyAll tx u.batches ⟨w₁, 0⟩ = (.error h, p))
    (writes : u.Underway tx w₁ p ∨ u.Failed tx w₁ h p)
    (undone : undoWrites tx p.world = (rolledBack, w')) :
    Run u w (.error (.commit p.applied rolledBack h.entity h.phase h.error)) w'
  | refused {tx : Transaction} {w₁ w₂ w' : World} {p : Progress} {b : Batch} {bs : List Batch}
    {err : Error} {rolledBack : Bool} (first : u.batches.head? = some b)
    (opened : u.openFor u.types w = (.ok tx, w₁))
    (applied : u.applyAll tx u.batches ⟨w₁, 0⟩ = (.ok bs, p)) (writes : u.Underway tx w₁ p)
    (closed : tx.tryCommit p.world = (.error err, w₂))
    (undone : undoWrites tx w₂ = (rolledBack, w')) :
    Run u w (.error (.commit p.applied rolledBack b.type.name .commit err)) w'

lemma run_commitBatches {w₁ : World} {b : Batch} (hb : u.batches.head? = some b)
    (hopen : u.openFor u.types w = (.ok tx, w₁)) :
    u.Run w (u.commitBatches tx b.type.name u.batches w₁).1
      (u.commitBatches tx b.type.name u.batches w₁).2 := by
  have hwork : u.batches ≠ [] := by
    intro hnil
    rw [hnil] at hb
    cases hb
  have hwrites := u.triple_applyAll tx w₁ ⟨w₁, 0⟩ rfl
  unfold commitBatches applyAndCommit
  rcases hr : u.applyAll tx u.batches ⟨w₁, 0⟩ with ⟨h | bs, p⟩
  · rw [hr] at hwrites
    rw [bind_of_error hr]
    exact .halted hwork hopen hr hwrites rfl
  · rw [hr] at hwrites
    rw [bind_of_ok hr]
    rcases hc : tx.tryCommit p.world with ⟨err | tx', w₂⟩
    · have hstep : discard (Committing.ofStep b.type.name .commit tx.tryCommit) p =
          (.error ⟨b.type.name, .commit, err⟩, ⟨w₂, p.applied⟩) :=
        bind_of_error (Committing.ofStep_of_error hc)
      rw [bind_of_error hstep]
      exact .refused (p := p) hb hopen hr hwrites hc rfl
    · have hstep : discard (Committing.ofStep b.type.name .commit tx.tryCommit) p =
          (.ok (), ⟨w₂, p.applied⟩) := bind_of_ok (Committing.ofStep_of_ok hc)
      rw [bind_of_ok hstep]
      exact .committed (p := p) hwork hopen hr hwrites hc

/-- However a commit ends, it has run so. -/
theorem commit_run (u : UnitOfWork) (w : World) : u.Run w (u.commit.1 w).1 (u.commit.1 w).2 := by
  rcases hbs : u.batches with _ | ⟨b, bs⟩
  · rw [commit_of_nil hbs]
    exact .idle hbs
  · rw [commit_of_cons hbs, bind_apply]
    rcases hopen : u.openFor u.types w with ⟨err | tx, w₁⟩
    · exact .unopened (by simp [hbs]) hopen
    · exact run_commitBatches (by rw [hbs]; rfl) hopen

end UnitOfWork

end EntityStore
