import EntityStore.Proofs.Triple
import EntityStore.Proofs.Typing
import EntityStore.Store.Adapter
import Mathlib.Logic.Function.Basic

/-!
Taking writes back. A write on the rows of a table either says how it is undone, and then undoing it
gives the rows it found, or it has left them alone. So an open journal, played backwards from
whatever the tables hold now, always leads to what they held when it was opened.
-/

namespace EntityStore

/-! ### One table -/

lemma FieldKind.same_of_shows {k : FieldKind} {v : Value} (h : k.Shows v)
    (hk : k.type.scalar ≠ .float) : v.same v = true := by
  obtain ⟨c, rfl⟩ := h
  induction k with
  | float => simp [type] at hk
  | optional k ih =>
    rcases c with _ | c
    · rfl
    · exact ih hk c
  | _ => exact beq_self_eq_true _

namespace Schema

variable {s : Schema} {d : Declaration} {e row : Entity}

lemma fits_copyFields {fields : List String} {copy : Entity} (hc : d.Fits copy.scalars)
    (h : fields.foldlM (copyField d.type e) copy = .ok row) : d.Fits row.scalars := by
  induction fields generalizing copy with
  | nil => cases h; exact hc
  | cons f fields ih =>
    rw [List.foldlM_cons] at h
    obtain ⟨copy', hf, h⟩ := except_bind_eq_ok.mp h
    obtain ⟨v, -, hf⟩ := except_bind_eq_ok.mp hf
    obtain ⟨r, hr, rfl⟩ := Declarations.assign_eq_ok hf
    have hr' : d.Fits ({ copy with scalars := r } : Entity).scalars := hc.put hr
    exact ih hr' h

/-- The stored fields of an entity make a well-typed row. -/
lemma fits_snapshot (h : s.snapshot d.type e = .ok row) : d.Fits row.scalars :=
  fits_copyFields d.fits_blank h

/-- The key is not a float, so a key always equals itself. -/
def KeyNotFloat (s : Schema) (T : EntityType) : Prop :=
  ∀ f ∈ T.fields, f.name = s.key → f.type.scalar ≠ .float

end Schema

namespace Table

variable {α : Type} {T : EntityType} {s : Schema} {e : Entity} {rows : List Entity}

/-- Undoing the write gives the rows back, or there is nothing to undo. -/
def Outcome.Restores (o : Outcome α) (rows : List Entity) : Prop :=
  match o.undo with
  | some u => Table.undo o.rows u = rows
  | none => o.rows = rows

lemma find?_eq_some {key : String} {v : Value} {i : Nat} {row : Entity}
    (h : find? T key v rows = some (i, row)) : rows[i]? = some row := by
  unfold find? at h
  rcases hi : rows.findIdx? (hasKey T key v) with _ | j
  · simp [hi] at h
  · rcases hr : rows[j]? with _ | r
    · simp [hi, hr] at h
    · simp only [hi, hr, Option.bind_eq_bind, Option.bind_some, Option.pure_def, Option.some.injEq,
        Prod.mk.injEq] at h
      obtain ⟨rfl, rfl⟩ := h
      exact hr

lemma undo_created {key : String} {v : Value} {row : Entity} (h : hasKey T key v row) :
    undo (rows ++ [row]) (.created T key v) = rows := by
  simp [undo, h]

lemma undo_updated {i : Nat} {before row : Entity} (h : rows[i]? = some before) :
    undo (rows.set i row) (.updated i before) = rows := by
  obtain ⟨hi, rfl⟩ := List.getElem?_eq_some_iff.mp h
  simp [undo]

lemma undo_deleted {i : Nat} {row : Entity} (h : rows[i]? = some row) :
    undo (rows.eraseIdx i) (.deleted i row) = rows := by
  obtain ⟨hi, rfl⟩ := List.getElem?_eq_some_iff.mp h
  rw [undo, List.eraseIdx_eq_take_drop_succ]
  have hlen : (rows.take i).length = i := by simp; omega
  rw [List.take_left' hlen, List.drop_left' hlen, List.getElem_cons_drop, List.take_append_drop]

lemma creation_eq_ok {c : Creation} (h : creation T s rows e = .ok c) :
    keyed T s rows e = .ok c.entity ∧ s.snapshot T c.entity = .ok c.row ∧
      T.read c.row s.key = .ok c.key := by
  obtain ⟨e', he, h⟩ := except_bind_eq_ok.mp h
  obtain ⟨row, hrow, h⟩ := except_bind_eq_ok.mp h
  obtain ⟨key, hkey, h⟩ := except_bind_eq_ok.mp h
  cases h
  exact ⟨he, hrow, hkey⟩

lemma keyed_eq_ok {e' : Entity} (h : keyed T s rows e = .ok e') :
    if s.generated then ∃ k, T.assign e s.key (.int k) = .ok e' else e' = e := by
  unfold keyed at h
  by_cases hg : s.generated
  · rw [if_pos hg] at h ⊢
    obtain ⟨k, -, h⟩ := except_bind_eq_ok.mp h
    exact ⟨k, h⟩
  · rw [if_neg hg] at h ⊢
    cases h; rfl

/-- A creation is undone by taking out the last row with the new key: its key equals itself. -/
lemma create_restores {d : Declaration} (hs : s.KeyNotFloat d.type) :
    (create d.type s e rows).Restores rows := by
  unfold create
  split
  · rename_i c hc
    obtain ⟨-, hrow, hkey⟩ := creation_eq_ok hc
    refine undo_created ?_
    have hfit := Schema.fits_snapshot hrow
    have hget : c.row.scalars.lookup s.key = some c.key := EntityType.read_eq_ok hkey
    have hmem : s.key ∈ d.fields.map Prod.fst := by
      rw [← hfit.names, ← lookup_isSome_iff, hget]; rfl
    obtain ⟨k, v, hk, hv, hshow⟩ := hfit.lookup hmem
    rw [hget] at hv
    cases hv
    have hfield : (⟨s.key, k.type⟩ : Field) ∈ d.type.fields := by
      refine List.mem_map.mpr ⟨(s.key, k), ?_, rfl⟩
      exact mem_of_lookup _ _ hk
    have := FieldKind.same_of_shows hshow (hs _ hfield rfl)
    simp [hasKey, EntityType.read?, Declaration.type, hget, this]
  · rfl

/-- No field of a well-typed entity is refused by a row. -/
lemma overwrite_declared {d : Declaration} (he : d.Fits e.scalars) {fields : List String}
    (hf : ∀ f ∈ fields, f ∈ d.fields.map Prod.fst) (row : Entity) :
    (overwrite d.type e fields row).2 = none := by
  induction fields generalizing row with
  | nil => rfl
  | cons f fields ih =>
    obtain ⟨k, v, hk, hv, hshow⟩ := he.lookup (hf f (by simp))
    have hread : d.type.read e f = .ok v := by
      simp [EntityType.read, EntityType.read?, Declaration.type, hv]
    have hassign : d.type.assign row f v = .ok { row with scalars := row.scalars.put f v } := by
      simp [EntityType.assign, Declaration.type, Declaration.put_of_shows hk hshow, Except.map]
    simp only [overwrite, hread, bind, Except.bind, hassign]
    exact ih (fun g hg => hf g (by simp [hg])) _

lemma update_restores {d : Declaration} (hs : s.IsOf d.type) (he : d.Fits e.scalars) :
    (update d.type s e rows).Restores rows := by
  unfold update
  split
  · rfl
  · split
    · rfl
    · rename_i i before hfind
      have hstored : ∀ f ∈ s.persistedWithoutKey, f ∈ d.fields.map Prod.fst := by
        intro f hf
        rw [hs.fields.2.2] at hf
        obtain ⟨g, hg, rfl⟩ := List.mem_map.mp hf
        obtain ⟨p, hp, rfl⟩ := List.mem_map.mp (List.mem_of_mem_filter hg)
        exact List.mem_map_of_mem hp
      have hover := overwrite_declared he hstored before
      split
      · exact undo_updated (find?_eq_some hfind)
      · rename_i row err ho
        rw [ho] at hover
        cases hover

lemma delete_restores : (delete T s e rows).Restores rows := by
  unfold delete
  split
  · rfl
  · split
    · rfl
    · rename_i i row hfind
      exact undo_deleted (find?_eq_some hfind)

end Table

/-! ### The journal -/

namespace World

variable (w : World) {b : String} {tables : String → List Entity}

lemma rows_withRows (table : String) (rows : List Entity) :
    (w.withRows table rows).rows = Function.update w.rows table rows := by
  funext t
  by_cases h : t = table
  · subst h; simp
  · simp [h]

lemma rows_undo (c : Change) :
    (w.undo c).rows = Function.update w.rows c.table (Table.undo (w.rows c.table) c.undo) :=
  w.rows_withRows _ _

/-- Where undoing leads depends on the tables alone. -/
lemma rows_undoAll_congr {w₁ w₂ : World} (h : w₁.rows = w₂.rows) (cs : List Change) :
    (cs.foldl undo w₁).rows = (cs.foldl undo w₂).rows := by
  induction cs generalizing w₁ w₂ with
  | nil => exact h
  | cons c cs ih => exact ih (by rw [rows_undo, rows_undo, h])

lemma backends_undoAll (cs : List Change) : (cs.foldl undo w).backends = w.backends := by
  induction cs generalizing w with
  | nil => rfl
  | cons c cs ih => rw [List.foldl_cons, ih]; rfl

/-- The journal of a backend is open, and played backwards it leads to the given tables. -/
def Journaled (b : String) (tables : String → List Entity) (w : World) : Prop :=
  ∃ cs, w.backends.get? (.memory b) = some (.journal (some cs)) ∧ (cs.foldl undo w).rows = tables

variable {w}

lemma Journaled.congr {w' : World} (h : w.Journaled b tables) (hr : w'.rows = w.rows)
    (hb : w'.backends = w.backends) : w'.Journaled b tables := by
  obtain ⟨cs, hj, ht⟩ := h
  exact ⟨cs, by rw [hb, hj], by rw [rows_undoAll_congr hr, ht]⟩

lemma Journaled.note (h : w.Journaled b tables) (e : Event) : (w.note e).Journaled b tables :=
  h.congr rfl rfl

lemma journal_nothing (t : MemoryTable) (tx : Transaction) : t.journal tx none w = w := by
  unfold MemoryTable.journal
  rcases t.backend <;> rfl

lemma journal_own {t : MemoryTable} (ht : t.journalName = some b) (u : Undo) :
    t.journal ⟨some (.memory b)⟩ (some u) w = w.journal (.memory b) ⟨t.name, u⟩ := by
  simp [MemoryTable.journal, MemoryTable.backend, ht, Transaction.includes]

/-- A write that is journaled keeps the way back. -/
lemma Journaled.write {α : Type} (h : w.Journaled b tables) {t : MemoryTable}
    (ht : t.journalName = some b) {f : List Entity → Table.Outcome α}
    (hf : (f (w.rows t.name)).Restores (w.rows t.name)) :
    (t.write ⟨some (.memory b)⟩ f w).2.Journaled b tables := by
  obtain ⟨cs, hj, hrows⟩ := h
  unfold MemoryTable.write
  generalize f (w.rows t.name) = o at hf ⊢
  obtain ⟨result, rows, _ | u⟩ := o
  · have hf : rows = w.rows t.name := hf
    simp only [journal_nothing]
    refine ⟨cs, hj, ?_⟩
    rw [← hrows]
    refine rows_undoAll_congr ?_ cs
    rw [rows_withRows, hf, Function.update_eq_self]
  · have hf : Table.undo rows u = w.rows t.name := hf
    have hjournal : (w.withRows t.name rows).journal (.memory b) ⟨t.name, u⟩ =
        (w.withRows t.name rows).withBackend (.memory b) (.journal (some (⟨t.name, u⟩ :: cs))) := by
      simp [World.journal, hj]
    simp only [journal_own ht, hjournal]
    refine ⟨⟨t.name, u⟩ :: cs, by simp, ?_⟩
    rw [List.foldl_cons, ← hrows]
    refine rows_undoAll_congr ?_ cs
    have hw : ((w.withRows t.name rows).withBackend (.memory b)
        (.journal (some (⟨t.name, u⟩ :: cs)))).rows = (w.withRows t.name rows).rows := rfl
    simp only [rows_undo, hw, rows_withRows, Function.update_self, hf, Function.update_idem,
      Function.update_eq_self]

/-! ### A transaction on a journal -/

/-- A call that a journal does not refuse goes through and is noted. -/
lemma call_journal {id : BackendId} {c : Call} {cs : Option (List Change)} {w' : World}
    (hj : w.backends.get? id = some (.journal cs)) (hc : Backend.callJournal id c cs w = .ok w') :
    Step.executed (Backend.call id c) w = (.ok (), w'.note (.call id c true)) := by
  rw [Step.executed, Fallible.adapt_apply]
  simp only [Backend.call, Backend.answer, hj, hc]
  rfl

/-- Beginning a transaction on a closed journal opens it, with nothing to take back. -/
lemma begin_journal (h : w.backends.get? (.memory b) = some (.journal none)) :
    ∃ w', Transaction.begin (.memory b) w = (.ok ⟨some (.memory b)⟩, w') ∧
      w'.Journaled b w.rows := by
  have hc : Backend.callJournal (.memory b) .begin none w =
      .ok (w.withBackend (.memory b) (.journal (some []))) := rfl
  exact ⟨_, Fallible.bind_of_ok (call_journal h hc), [], by simp, rfl⟩

/-- Committing closes an open journal. -/
lemma commit_journal (h : w.Journaled b tables) :
    ∃ w', Transaction.tryCommit ⟨some (.memory b)⟩ w = (.ok .autocommit, w') := by
  obtain ⟨cs, hj, -⟩ := h
  have hc : Backend.callJournal (.memory b) .commit (some cs) w =
      .ok (w.withBackend (.memory b) (.journal none)) := rfl
  exact ⟨_, Fallible.bind_of_ok (call_journal hj hc)⟩

/-- Rolling back closes an open journal and restores the tables it leads back to. -/
lemma rollback_journal (h : w.Journaled b tables) :
    ∃ w', Transaction.rollback ⟨some (.memory b)⟩ w = (.ok (), w') ∧ w'.rows = tables ∧
      w'.backends.get? (.memory b) = some (.journal none) := by
  obtain ⟨cs, hj, ht⟩ := h
  refine ⟨_, call_journal hj rfl, ?_, ?_⟩
  · rw [← ht]
    have hclosed : (w.withBackend (.memory b) (.journal none)).rows = w.rows := rfl
    exact rows_undoAll_congr hclosed cs
  · rw [backends_note, backends_undoAll]
    simp

end World

end EntityStore
