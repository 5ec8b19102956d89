import EntityStore.Proofs.OrderedMap
import EntityStore.Proofs.Trace

/-!
What a write through an adapter in memory leaves in the tables. It is refused before it begins, or
it is that of its table. Where a write of a well-typed entity fails, every table is as it was.
-/

namespace EntityStore

open Fallible

/-! ### Rows -/

namespace Table

variable {s : Schema} {d : Declaration} {e : Entity} {rows : List Entity}

/-- An outcome with a result in place of none. -/
def Outcome.giving (o : Outcome Unit) (e : Entity) : Outcome Entity :=
  ⟨o.result.map fun _ => e, o.rows, o.undo⟩

lemma Outcome.giving_eq_error {o : Outcome Unit} {err : Error}
    (h : (o.giving e).result = .error err) : o.result = .error err := by
  rcases o with ⟨_ | _, _, _⟩ <;> cases h
  rfl

/-- A write of any kind on the rows of a table. -/
def write (T : EntityType) (s : Schema) (op : Operation) (e : Entity) (rows : List Entity) :
    Outcome Entity :=
  match op with
  | .insert => create T s e rows
  | .update => (update T s e rows).giving e
  | .delete => (delete T s e rows).giving e

lemma create_failed {T : EntityType} {err : Error} (h : (create T s e rows).result = .error err) :
    (create T s e rows).rows = rows := by
  unfold create at h ⊢
  split at h
  · cases h
  · rfl

/-- No field of a well-typed entity is refused halfway. -/
lemma update_failed (hs : s.IsOf d.type) (he : d.Fits e.scalars) {err : Error}
    (h : (update d.type s e rows).result = .error err) : (update d.type s e rows).rows = rows := by
  unfold update at h ⊢
  split at h
  · rfl
  · split at h
    · cases h
    · rename_i i before _
      have hstored : ∀ f ∈ s.persistedWithoutKey, f ∈ d.fields.map Prod.fst :=
        fun f hf => (hs.mem_persistedWithoutKey.mp hf).1
      have hover := overwrite_declared he hstored before
      split at h
      · cases h
      · rename_i row err' ho
        rw [ho] at hover
        cases hover

lemma delete_failed {T : EntityType} {err : Error} (h : (delete T s e rows).result = .error err) :
    (delete T s e rows).rows = rows := by
  unfold delete at h ⊢
  split at h
  · rfl
  · split at h <;> cases h

lemma write_failed (hs : s.IsOf d.type) (he : d.Fits e.scalars) {op : Operation} {err : Error}
    (h : (write d.type s op e rows).result = .error err) :
    (write d.type s op e rows).rows = rows := by
  cases op with
  | insert => exact create_failed h
  | update => exact update_failed hs he (Outcome.giving_eq_error h)
  | delete => exact delete_failed (Outcome.giving_eq_error h)

end Table

/-! ### Tables -/

namespace Adapter

variable {a : Adapter} {t : MemoryTable} {tx : Transaction} {op : Operation} {e : Entity}
  {w w' : World}

/-- What is announced may be refused, and then no table is changed. -/
lemma announced_cases {α : Type} (a : Adapter) (op : Operation) (e : Entity) (t : MemoryTable)
    (tx : Transaction) (f : List Entity → Table.Outcome α) (w : World) :
    (∃ err w', (a.announce op e >>= fun _ => t.write tx f) w = (.error err, w') ∧
        w'.tables = w.tables) ∨
      ∃ w', (a.announce op e >>= fun _ => t.write tx f) w = ((f (w.rows t.name)).result, w') ∧
        w'.tables = w.tables.put t.name (f (w.rows t.name)).rows := by
  rw [bind_apply]
  rcases a.announce_cases op e w with ⟨err, h⟩ | ⟨err | _, guard, key, h⟩
  · rw [h]
    exact .inl ⟨err, w, rfl, rfl⟩
  · rw [h]
    exact .inl ⟨err, _, rfl, rfl⟩
  · rw [h]
    exact .inr ⟨_, rfl, t.tables_write tx f (w.note _)⟩

lemma bind_giving (x : Step Error Unit) (e : Entity) (t : MemoryTable) (tx : Transaction)
    (f : List Entity → Table.Outcome Unit) :
    ((x >>= fun _ => t.write tx f) >>= fun _ => pure e) =
      x >>= fun _ => t.write tx fun rows => (f rows).giving e := by
  funext w
  simp only [bind_apply]
  rcases x w with ⟨err | _, w'⟩
  · rfl
  · dsimp only [MemoryTable.write]
    rcases f (w'.rows t.name) with ⟨_ | _, _, _⟩ <;> rfl

lemma write_memory (h : a.storage = .memory t) (tx : Transaction) (op : Operation) (e : Entity) :
    a.write tx op e =
      a.announce op e >>= fun _ => t.write tx (Table.write a.type a.schema op e) := by
  cases op with
  | insert =>
    rw [write, create, h]
    rfl
  | update =>
    rw [write, update, h]
    exact bind_giving _ e t tx _
  | delete =>
    rw [write, delete, h]
    exact bind_giving _ e t tx _

/-- A write is refused before it begins, or is that of the table. -/
lemma write_cases (h : a.storage = .memory t) (tx : Transaction) (op : Operation) (e : Entity)
    (w : World) :
    (∃ err w', a.write tx op e w = (.error err, w') ∧ w'.tables = w.tables) ∨
      ∃ w', a.write tx op e w =
          ((Table.write a.type a.schema op e (w.rows t.name)).result, w') ∧
        w'.tables =
          w.tables.put t.name (Table.write a.type a.schema op e (w.rows t.name)).rows := by
  rw [write_memory h]
  exact a.announced_cases op e t tx _ w

lemma rows_of_put {rows : List Entity} {name : String}
    (h : w'.tables = w.tables.put name rows) : w'.rows = Function.update w.rows name rows := by
  rw [← World.rows_withRows]
  exact World.rows_of_tables h

/-- A write that goes through is that of the table. -/
lemma write_eq_ok {e' : Entity} (hm : a.storage = .memory t)
    (h : a.write tx op e w = (.ok e', w')) :
    (Table.write a.type a.schema op e (w.rows t.name)).result = .ok e' ∧
      w'.rows = Function.update w.rows t.name
        (Table.write a.type a.schema op e (w.rows t.name)).rows := by
  rcases write_cases hm tx op e w with ⟨err, w₁, hw, -⟩ | ⟨w₁, hw, htables⟩
  · rw [hw] at h
    cases h
  · rw [hw] at h
    obtain ⟨hresult, rfl⟩ := Prod.mk.inj h
    exact ⟨hresult, rows_of_put htables⟩

/-- A write that fails leaves the tables as they were. -/
lemma write_failed {Γ : Declarations} (ha : a.Declared Γ) (hm : a.storage = .memory t)
    (he : (Γ.of a.type.name).Fits e.scalars) {err : Error}
    (h : a.write tx op e w = (.error err, w')) : w'.rows = w.rows := by
  rcases write_cases hm tx op e w with ⟨err', w₁, hw, htables⟩ | ⟨w₁, hw, htables⟩
  · rw [hw] at h
    obtain ⟨-, rfl⟩ := Prod.mk.inj h
    exact World.rows_of_tables htables
  · rw [hw] at h
    obtain ⟨hresult, rfl⟩ := Prod.mk.inj h
    have hT : a.type = (Γ.of a.type.name).type := ha.type
    have hs : a.schema.IsOf (Γ.of a.type.name).type := hT ▸ ha.schema
    rw [hT] at hresult htables
    rw [rows_of_put htables, Table.write_failed hs he hresult, Function.update_eq_self]

end Adapter

end EntityStore
