import EntityStore.Proofs.Declared
import EntityStore.Proofs.Run
import EntityStore.Proofs.Statements
import EntityStore.Proofs.Undo

/-!
The writes that the trace tells of. An adapter notes each write once, before anything else comes of
it; what tables, connections and backends do then adds no other.
-/

namespace EntityStore

open Fallible

/-- A write as an adapter was asked for it: its kind, and the type and scalars of the entity. -/
structure Write where
  op : Operation
  type : String
  scalars : Record

/-- The write that an event tells of. -/
def Event.write? : Event → Option Write
  | .write _ op type _ row => some ⟨op, type, row.scalars⟩
  | _ => none

namespace World

/-- The writes so far, oldest first. -/
def writes (w : World) : List Write := w.trace.reverse.filterMap Event.write?

variable {w w' : World}

lemma writes_congr (h : w'.trace = w.trace) : w'.writes = w.writes := by
  rw [writes, writes, h]

/-- Taking changes back is not in the trace. -/
lemma trace_undoAll (w : World) (cs : List Change) : (cs.foldl undo w).trace = w.trace := by
  induction cs generalizing w with
  | nil => rfl
  | cons c cs ih => exact ih (w.undo c)

lemma writes_note (e : Event) : (w.note e).writes = w.writes ++ e.write?.toList := by
  rw [writes, writes, trace_note, List.reverse_cons, List.filterMap_append]
  rfl

lemma rows_of_tables (h : w'.tables = w.tables) : w'.rows = w.rows := by
  funext table
  rw [rows, rows, h]

end World

/-! ### Calls -/

namespace Backend

variable {id : BackendId} {c : Call} {w w' : World}

lemma trace_callJournal {cs : Option (List Change)} (h : callJournal id c cs w = .ok w') :
    w'.trace = w.trace := by
  cases c <;> rcases cs with _ | cs <;> cases h
  · rfl
  · rfl
  · exact World.trace_undoAll _ cs

/-- A call is noted once, with whether it went through. -/
lemma trace_call (id : BackendId) (c : Call) (w : World) :
    (call id c w).2.trace = .call id c (call id c w).1.isOk :: w.trace := by
  have hanswer : (answer id c w).2.trace = w.trace := by
    unfold answer
    split
    · split
      · rename_i h; exact trace_callJournal h
      · rfl
    · dsimp only
      split <;> rfl
    · rfl
  have h : (call id c w).2 = (answer id c w).2.note (.call id c (call id c w).1.isOk) := rfl
  rw [h, World.trace_note, hanswer]

lemma tables_callJournal {cs : Option (List Change)} (hc : c ≠ .rollback)
    (h : callJournal id c cs w = .ok w') : w'.tables = w.tables := by
  cases c with
  | begin => rcases cs with _ | cs <;> cases h; rfl
  | commit => rcases cs with _ | cs <;> cases h; rfl
  | rollback => exact absurd rfl hc

/-- Calls that roll nothing back leave the tables alone. -/
lemma tables_call (hc : c ≠ .rollback) (id : BackendId) (w : World) :
    (call id c w).2.tables = w.tables := by
  have hanswer : (answer id c w).2.tables = w.tables := by
    unfold answer
    split
    · split
      · rename_i h
        exact tables_callJournal hc h
      · rfl
    · dsimp only
      split <;> rfl
    · rfl
  exact hanswer

end Backend

namespace Transaction

variable {tx : Transaction} {w w' : World}

lemma close_open (b : BackendId) (c : Call) (w : World) : (⟨some b⟩ : Transaction).close c w =
    ((Backend.call b c w).1.mapError .backendExecution, (Backend.call b c w).2) := rfl

lemma tables_close {c : Call} (hc : c ≠ .rollback) (tx : Transaction) (w : World) :
    (tx.close c w).2.tables = w.tables := by
  obtain ⟨_ | b⟩ := tx
  · rfl
  · exact Backend.tables_call hc b w

lemma world_tryCommit (tx : Transaction) (w : World) :
    (tx.tryCommit w).2 = (tx.close .commit w).2 := snd_bind_pure _ (fun _ => autocommit) _

lemma tables_tryCommit {x : Except Error Transaction} (h : tx.tryCommit w = (x, w')) :
    w'.tables = w.tables := by
  have hclose := tx.tables_close (c := .commit) (by decide) w
  rw [← world_tryCommit, h] at hclose
  exact hclose

end Transaction

namespace UnitOfWork

variable {u : UnitOfWork} {types : List String} {w w' : World}

/-- A commit begins with the handle of the shared backend, or with one that has none. -/
lemma openFor_eq (u : UnitOfWork) (types : List String) :
    u.openFor types = (⟨u.sharedBackend (u.participants types)⟩ : Transaction).close .begin >>=
      fun _ => pure ⟨u.sharedBackend (u.participants types)⟩ := by
  unfold openFor
  rcases u.sharedBackend (u.participants types) with _ | b <;> rfl

lemma tables_openFor {x : Except Error Transaction} (h : u.openFor types w = (x, w')) :
    w'.tables = w.tables := by
  rw [openFor_eq] at h
  rw [← Transaction.tables_close (c := .begin) (by decide) _ w, ← snd_bind_pure, h]

end UnitOfWork

/-! ### Steps without a write -/

/-- The step makes no write. -/
def Quiet {ε α : Type} (x : Step ε α) : Prop := ∀ w, (x w).2.writes = w.writes

section Quiet

variable {ε ε' α β : Type}

lemma Quiet.bind {x : Step ε α} {f : α → Step ε β} (hx : Quiet x) (hf : ∀ a, Quiet (f a)) :
    Quiet (x >>= f) := by
  intro w
  rw [bind_apply]
  rcases h : x w with ⟨e | a, w'⟩
  · rw [← hx w, h]
  · rw [← hx w, h]
    exact hf a w'

lemma Quiet.pure (a : α) : Quiet (Pure.pure a : Step ε α) := fun _ => rfl

lemma Quiet.ok {x : Step ε α} (hx : Quiet x) {w w' : World} {a : α} (h : x w = (.ok a, w')) :
    w'.writes = w.writes := by
  rw [← hx w, h]

lemma Quiet.adapt {x : Step ε α} (hx : Quiet x) (f : ε → ε') : Quiet (x.adapt f : Step ε' α) := by
  intro w
  rw [adapt_apply]
  exact hx w

/-- To speak to a connection is no write. -/
lemma Talks.quiet {x : Step ε α} (hx : Talks x) : Quiet x := by
  intro w
  obtain ⟨events, ht, hs⟩ := (hx w).trace
  have hnone : events.reverse.filterMap Event.write? = [] := by
    refine List.filterMap_eq_nil_iff.mpr fun e he => ?_
    have he := hs e (List.mem_reverse.mp he)
    cases e <;> first | rfl | cases he
  rw [World.writes, ht, List.reverse_append, List.filterMap_append, hnone, List.append_nil]
  rfl

lemma quiet_call (id : BackendId) (c : Call) : Quiet (Backend.call id c) := by
  intro w
  rw [World.writes, Backend.trace_call, List.reverse_cons, List.filterMap_append]
  exact List.append_nil _

lemma quiet_begin (id : BackendId) : Quiet (Transaction.begin id) :=
  ((quiet_call id .begin).adapt _).bind fun _ => Quiet.pure _

lemma quiet_close (tx : Transaction) (c : Call) : Quiet (tx.close c) := by
  unfold Transaction.close
  split
  · exact (quiet_call _ c).adapt _
  · exact Quiet.pure _

lemma quiet_tryCommit (tx : Transaction) : Quiet tx.tryCommit :=
  (quiet_close tx .commit).bind fun _ => Quiet.pure _

lemma UnitOfWork.quiet_openFor (u : UnitOfWork) (types : List String) :
    Quiet (u.openFor types) := by
  rw [openFor_eq]
  exact (quiet_close _ .begin).bind fun _ => Quiet.pure _

lemma MemoryTable.quiet_write (t : MemoryTable) (tx : Transaction)
    (f : List Entity → Table.Outcome α) : Quiet (t.write tx f) := by
  intro w
  refine World.writes_congr ?_
  unfold MemoryTable.write MemoryTable.journal
  dsimp only
  split
  · split
    · rw [World.trace_journal, World.trace_withRows]
    · rfl
  · rfl

end Quiet

/-! ### One write -/

namespace Adapter

variable {a : Adapter} {tx : Transaction} {e e' : Entity} {w w' : World}

/-- What a write leaves of an entity: an insert gives it a generated key. -/
def Leaves (a : Adapter) (op : Operation) (e e' : Entity) : Prop :=
  if op = .insert ∧ a.schema.generated then
    ∃ key, a.type.assign e a.schema.key key = .ok e'
  else e' = e

/-- What a write leaves of a well-typed entity is well-typed. -/
lemma Leaves.has {Γ : Declarations} (ha : a.Declared Γ) (he : Γ.Has a.type.name e) {op : Operation}
    (h : a.Leaves op e e') : Γ.Has a.type.name e' := by
  unfold Leaves at h
  split at h
  · obtain ⟨key, h⟩ := h
    rw [ha.type] at h
    exact he.assign h
  · rw [h]; exact he

lemma announce_ok {op : Operation} {x : Unit} (h : a.announce op e w = (.ok x, w')) :
    w'.writes = w.writes ++ [⟨op, a.type.name, e.scalars⟩] := by
  rcases a.announce_cases op e w with ⟨err, hc⟩ | ⟨result, guard, key, hc⟩
  · rw [hc] at h; cases h
  · rw [hc] at h; cases h; exact World.writes_note _

lemma leaves_created {t : MemoryTable}
    (h : t.write tx (Table.create a.type a.schema e) w = (.ok e', w')) : a.Leaves .insert e e' := by
  have hr : (Table.create a.type a.schema e (w.rows t.name)).result = .ok e' := congrArg Prod.fst h
  unfold Table.create at hr
  split at hr
  · rename_i c hc
    cases hr
    have hk := Table.keyed_eq_ok (Table.creation_eq_ok hc).1
    unfold Leaves
    split at hk
    · rename_i hg
      rw [if_pos ⟨rfl, hg⟩]
      exact ⟨_, hk.choose_spec⟩
    · rename_i hg
      rw [if_neg fun h => hg h.2]
      exact hk
  · cases hr

lemma leaves_inserted {t : SqlTable} (h : t.create a.type a.schema e w = (.ok e', w')) :
    a.Leaves .insert e e' := by
  obtain ⟨params, w₁, -, h⟩ := bind_eq_ok.mp h
  unfold Leaves
  split at h
  · rename_i hg
    obtain ⟨key, w₂, -, h⟩ := bind_eq_ok.mp h
    rw [if_pos ⟨rfl, hg⟩]
    exact ⟨key, (Prod.mk.inj h).1⟩
  · rename_i hg
    obtain ⟨_, w₂, -, h⟩ := bind_eq_ok.mp h
    cases h
    rw [if_neg fun h => hg h.2]

lemma create_ok (h : a.create tx e w = (.ok e', w')) :
    w'.writes = w.writes ++ [⟨.insert, a.type.name, e.scalars⟩] ∧ a.Leaves .insert e e' := by
  obtain ⟨_, w₁, ha, h⟩ := bind_eq_ok.mp h
  rw [← announce_ok ha]
  rcases hs : a.storage with t | t
  · rw [hs] at h
    exact ⟨(t.quiet_write _ _).ok h, leaves_created h⟩
  · rw [hs] at h
    exact ⟨(t.talks_create a.type a.schema e).quiet.ok h, leaves_inserted h⟩

lemma update_ok {x : Unit} (h : a.update tx e w = (.ok x, w')) :
    w'.writes = w.writes ++ [⟨.update, a.type.name, e.scalars⟩] := by
  obtain ⟨_, w₁, ha, h⟩ := bind_eq_ok.mp h
  rw [← announce_ok ha]
  rcases hs : a.storage with t | t
  · rw [hs] at h
    exact (t.quiet_write _ _).ok h
  · rw [hs] at h
    exact (t.talks_update a.type a.schema e).quiet.ok h

lemma delete_ok {x : Unit} (h : a.delete tx e w = (.ok x, w')) :
    w'.writes = w.writes ++ [⟨.delete, a.type.name, e.scalars⟩] := by
  obtain ⟨_, w₁, ha, h⟩ := bind_eq_ok.mp h
  rw [← announce_ok ha]
  rcases hs : a.storage with t | t
  · rw [hs] at h
    exact (t.quiet_write _ _).ok h
  · rw [hs] at h
    exact (t.talks_delete a.type a.schema e).quiet.ok h

/-- A write that goes through is noted as it was asked for, once. -/
lemma write_ok {op : Operation} (h : a.write tx op e w = (.ok e', w')) :
    w'.writes = w.writes ++ [⟨op, a.type.name, e.scalars⟩] ∧ a.Leaves op e e' := by
  cases op with
  | insert => exact create_ok h
  | update =>
    obtain ⟨_, w₁, hw, h⟩ := bind_eq_ok.mp h
    cases h
    exact ⟨update_ok hw, rfl⟩
  | delete =>
    obtain ⟨_, w₁, hw, h⟩ := bind_eq_ok.mp h
    cases h
    exact ⟨delete_ok hw, rfl⟩

end Adapter

end EntityStore
