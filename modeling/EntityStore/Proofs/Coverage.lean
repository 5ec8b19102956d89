import EntityStore.Proofs.Attempts
import EntityStore.Proofs.Refusal
import EntityStore.Proofs.WritePlan

/-!
What the transaction of a commit covers. Every write, at whatever depth, goes through a store that
is listed, so it belongs to the one backend that all listed stores share; what it changes in a table
in memory is in the journal there, and other tables are left alone, also by a rollback. The one
change that no journal hears of is that of an update which stops halfway, on a type whose accessors
were written by hand.
-/

namespace EntityStore

open Fallible

/-! ### Journals -/

namespace World

/-- The journal of the backend is open with these changes. -/
def Holds (w : World) (b : BackendId) (cs : List Change) : Prop :=
  w.backends.get? b = some (.journal (some cs))

variable {w w' : World} {b : BackendId} {cs : List Change} {table : String}

lemma Announced.holds_iff (h : w.Announced w') : w'.Holds b cs ↔ w.Holds b cs := by
  rw [Holds, Holds, h.backends_eq]

lemma Holds.eq {cs' : List Change} (h : w.Holds b cs) (h' : w.Holds b cs') : cs = cs' := by
  rw [Holds, h] at h'
  cases h'
  rfl

lemma holds_of_journal {id : BackendId} {c : Change} (h : (w.journal id c).Holds b cs) :
    ∃ before, w.Holds b before ∧ (cs = before ∨ cs = c :: before) := by
  unfold journal at h
  split at h
  · rename_i changes hid
    rw [Holds, backends_withBackend] at h
    by_cases hb : b = id
    · subst hb
      rw [Keyed.get?_put_self] at h
      cases h
      exact ⟨changes, hid, .inr rfl⟩
    · rw [Keyed.get?_put_of_ne _ _ hb] at h
      exact ⟨cs, h, .inl rfl⟩
  · exact ⟨cs, h, .inl rfl⟩

lemma holds_journal {id : BackendId} {c : Change} (h : w.Holds b cs) :
    ∃ cs', (w.journal id c).Holds b cs' := by
  unfold journal
  split
  · rw [Holds] at h
    by_cases hb : b = id
    · subst hb
      exact ⟨_, Keyed.get?_put_self _ _ _⟩
    · exact ⟨cs, (Keyed.get?_put_of_ne _ _ hb).trans h⟩
  · exact ⟨cs, h⟩

/-- What changes a table of the journal is added to it in a transaction on its backend. -/
lemma Holds.journal {t : MemoryTable} (h : w.Holds b cs) (ht : t.backend = some b)
    (tx : Transaction) (undo : Option Undo) : (t.journal tx undo w).Holds b
      (if tx.includes b then undo.toList.map (Change.mk t.name) ++ cs else cs) := by
  rcases undo with _ | u
  · rw [journal_nothing]
    simpa using h
  · by_cases hincludes : tx.includes b
    · have hjournal : t.journal tx (some u) w = w.journal b ⟨t.name, u⟩ := by
        simp only [MemoryTable.journal, ht, hincludes, if_true]
      rw [if_pos hincludes, hjournal, World.journal]
      rw [Holds] at h
      rw [h]
      exact Keyed.get?_put_self _ _ _
    · have hjournal : t.journal tx (some u) w = w := by
        simp [MemoryTable.journal, ht, hincludes]
      rw [if_neg hincludes, hjournal]
      exact h

lemma rows_undoAll_of_ne (h : ∀ c ∈ cs, c.table ≠ table) (w : World) :
    (cs.foldl undo w).rows table = w.rows table := by
  induction cs generalizing w with
  | nil => rfl
  | cons c cs ih =>
    rw [List.foldl_cons, ih fun x hx => h x (by simp [hx])]
    exact rows_withRows_of_ne _ _ (h c (by simp)).symm

end World

namespace Backend

variable {b : BackendId} {c : Call} {w w' : World} {cs : List Change} {table : String}

/-- A call that a journal answers does what journals do; any other leaves tables and journals alone,
and only a backend elsewhere lets it through. -/
lemma call_cases (b : BackendId) (c : Call) (w : World) :
    (∃ cs w₁, w.backends.get? b = some (.journal cs) ∧ callJournal b c cs w = .ok w₁ ∧
      call b c w = (.ok (), w₁.note (.call b c true))) ∨
    ((call b c w).2.rows = w.rows ∧ (∀ id cs, (call b c w).2.Holds id cs ↔ w.Holds id cs) ∧
      ((call b c w).1.isOk → ∃ r, w.backends.get? b = some (.remote r))) := by
  unfold call answer
  rcases hb : w.backends.get? b with _ | cs | r
  · exact .inr ⟨rfl, fun _ _ => Iff.rfl, fun h => by cases h⟩
  · rcases hj : callJournal b c cs w with report | w₁
    · simp only [hj]
      exact .inr ⟨rfl, fun _ _ => Iff.rfl, fun h => by cases h⟩
    · exact .inl ⟨cs, w₁, rfl, hj, by simp only [hj]; rfl⟩
  · have hkeeps : ∀ (e : Event) (id : BackendId) (cs : List Change),
        ((w.withBackend b (.remote { r with calls := r.calls + 1 })).note e).Holds id cs ↔
          w.Holds id cs := by
      intro e id cs
      rw [World.Holds, World.backends_note, World.backends_withBackend]
      by_cases hid : id = b
      · subst hid
        rw [Keyed.get?_put_self, World.Holds, hb]
        simp
      · rw [Keyed.get?_put_of_ne _ _ hid]
        rfl
    right
    rcases hr : r.refusal r.calls c with _ | text
    · simp only [hr]
      exact ⟨rfl, hkeeps _, fun _ => ⟨r, rfl⟩⟩
    · simp only [hr]
      exact ⟨rfl, hkeeps _, fun _ => ⟨r, rfl⟩⟩

/-- A journal that was just opened holds nothing. -/
lemma eq_nil_of_begin (h : call b .begin w = (.ok (), w')) (hcs : w'.Holds b cs) : cs = [] := by
  rcases call_cases b .begin w with ⟨opened, w₁, -, hj, hc⟩ | ⟨-, hkeeps, hremote⟩
  · rw [h] at hc
    cases hc
    rcases opened with _ | changes
    · cases hj
      have hnew : (w.withBackend b (.journal (some []))).Holds b [] := Keyed.get?_put_self _ _ _
      exact World.Holds.eq hcs hnew
    · cases hj
  · rw [h] at hkeeps hremote
    obtain ⟨r, hr⟩ := hremote rfl
    have hbefore := (hkeeps b cs).mp hcs
    rw [World.Holds, hr] at hbefore
    cases hbefore

lemma holds_begin {changes : Option (List Change)}
    (hb : w.backends.get? b = some (.journal changes)) (h : call b .begin w = (.ok (), w')) :
    w'.Holds b [] := by
  rcases call_cases b .begin w with ⟨opened, w₁, -, hj, hc⟩ | ⟨-, -, hremote⟩
  · rw [h] at hc
    cases hc
    rcases opened with _ | changes
    · cases hj
      exact Keyed.get?_put_self _ _ _
    · cases hj
  · rw [h] at hremote
    obtain ⟨r, hr⟩ := hremote rfl
    rw [hb] at hr
    cases hr

/-- A commit leaves no journal open that was not. -/
lemma holds_of_commit (hcs : (call b .commit w).2.Holds b cs) : w.Holds b cs := by
  rcases call_cases b .commit w with ⟨opened, w₁, -, hj, hc⟩ | ⟨-, hkeeps, -⟩
  · rw [hc] at hcs
    rcases opened with _ | changes
    · cases hj
    · cases hj
      have hclosed : (w.withBackend b (.journal none)).backends.get? b = some (.journal none) :=
        Keyed.get?_put_self _ _ _
      rw [World.Holds, World.backends_note, hclosed] at hcs
      cases hcs
  · exact (hkeeps b cs).mp hcs

/-- A rollback leaves a table alone that no change in the journal is of. -/
lemma rows_rollback (h : ∀ cs, w.Holds b cs → ∀ c ∈ cs, c.table ≠ table) :
    (call b .rollback w).2.rows table = w.rows table := by
  rcases call_cases b .rollback w with ⟨opened, w₁, hb, hj, hc⟩ | ⟨hrows, -, -⟩
  · rw [hc]
    rcases opened with _ | changes
    · cases hj
    · cases hj
      exact World.rows_undoAll_of_ne (h changes hb) _
  · rw [hrows]

end Backend

/-! ### One write -/

namespace World

/-- Between two worlds a write was made in a table of the journal. Where it went through, its change
was added to the journal, or there was none. Where it failed, the journal is as it was, and so are
the rows unless it is an update that stopped halfway: what this has assigned stays. -/
def Journals (b : BackendId) (t : MemoryTable) (x : Attempt) (w w' : World) : Prop :=
  ∀ cs, w.Holds b cs → match x.result with
    | .ok _ =>
      (∃ undo, (Table.write x.store.adapter.type x.store.adapter.schema x.op x.entity
          (w.rows t.name)).undo = some undo ∧ w'.Holds b (⟨t.name, undo⟩ :: cs)) ∨
        (w'.Holds b cs ∧ w'.rows = w.rows)
    | .error err =>
      w'.Holds b cs ∧ (w'.rows = w.rows ∨ x.op = .update ∧ ∃ rows,
        Table.StopsHalfway x.store.adapter.type x.store.adapter.schema x.entity (w.rows t.name) err
            rows ∧ w'.rows = Function.update w.rows t.name rows)

/-- Since the transaction began the table has not changed, and no change of it is in the journal. -/
structure Spares (tx : Transaction) (table : String) (rows : List Entity) (w : World) : Prop where
  rows : w.rows table = rows
  changes : ∀ b cs, tx.backend = some b → w.Holds b cs → ∀ c ∈ cs, c.table ≠ table

end World

lemma Table.Outcome.Told.giving {o : Outcome Unit} {rows : List Entity} (h : o.Told rows)
    (e : Entity) : (o.giving e).Told rows := by
  rcases o with ⟨_ | _, rows', undo⟩
  · intro hok
    cases hok
  · intro _
    exact h rfl

lemma Table.write_told {T : EntityType} {s : Schema} {op : Operation} {e : Entity}
    {rows : List Entity} : (write T s op e rows).Told rows := by
  cases op with
  | insert => exact create_told
  | update => exact update_told.giving e
  | delete => exact delete_told.giving e

/-- In a transaction on the journal that its table belongs to, the journal hears of a write. -/
lemma Attempt.journals {x : Attempt} {t : MemoryTable} {b : BackendId} {w w' : World}
    (hs : x.store.adapter.storage = .memory t) (hb : t.backend = some b)
    (hw : x.store.adapter.write ⟨some b⟩ x.op x.entity w = (x.result, w')) :
    w.Journals b t x w' := by
  intro cs hcs
  rcases hresult : x.result with err | e
  · rw [hresult] at hw
    obtain ⟨hbackends, hrows⟩ := Adapter.refused_cases hs hw
    exact ⟨by rwa [World.Holds, hbackends], hrows⟩
  · rw [hresult, Adapter.write_memory hs] at hw
    obtain ⟨_, w₁, hann, hw⟩ := bind_eq_ok.mp hw
    obtain ⟨hrows, hbackends⟩ := Adapter.announce_keeps hann
    obtain ⟨hok, rfl⟩ := Prod.mk.inj hw
    have hcs₁ : ∀ rows, (w₁.withRows t.name rows).Holds b cs := by
      intro rows
      rwa [World.Holds, World.backends_withRows, hbackends]
    rw [hrows] at hok ⊢
    have htold := Table.write_told (by rw [hok]; rfl)
    have hholds := fun rows undo => (hcs₁ rows).journal hb ⟨some b⟩ undo
    simp only [Transaction.includes, beq_self_eq_true, if_true] at hholds
    rcases hundo : (Table.write x.store.adapter.type x.store.adapter.schema x.op x.entity
        (w.rows t.name)).undo with _ | undo
    · refine .inr ⟨hholds _ none, ?_⟩
      rw [World.journal_nothing, World.rows_withRows, htold hundo, hrows, Function.update_eq_self]
    · exact .inl ⟨undo, rfl, hholds _ (some undo)⟩

namespace Adapter.Effect

variable {a : Adapter} {tx : Transaction} {w w' : World} {ok : Bool} {b : BackendId}

/-- Whatever a write does, an open journal is still open after it. -/
lemma holds (h : a.Effect tx w ok w') (hw : ∃ cs, w.Holds b cs) : ∃ cs, w'.Holds b cs := by
  obtain ⟨cs, hcs⟩ := hw
  cases h with
  | stopped announced => exact ⟨cs, announced.holds_iff.mpr hcs⟩
  | @memory t w₁ ok rows undo storage announced told =>
    have hcs₁ : (w₁.withRows t.name rows).Holds b cs := announced.holds_iff.mpr hcs
    rcases t.journal_cases tx undo (w₁.withRows t.name rows) with h | ⟨id, u, -, h⟩
    · rw [h]
      exact ⟨cs, hcs₁⟩
    · rw [h]
      exact World.holds_journal hcs₁
  | sql storage announced spoke =>
    exact ⟨cs, (spoke.journals b _).mpr (announced.holds_iff.mpr hcs)⟩

/-- A write in other tables spares a table. -/
lemma spares {table : String} {rows : List Entity} (h : a.Effect tx w ok w')
    (hne : ∀ t, a.storage = .memory t → t.name ≠ table) (hw : w.Spares tx table rows) :
    w'.Spares tx table rows := by
  cases h with
  | stopped announced =>
    exact ⟨by rw [announced.rows_eq, hw.rows],
      fun b cs hb hcs => hw.changes b cs hb (announced.holds_iff.mp hcs)⟩
  | @memory t w₁ ok rows' undo storage announced told =>
    have hname := hne t storage
    have hspares : (w₁.withRows t.name rows').Spares tx table rows := by
      refine ⟨?_, fun b cs hb hcs => hw.changes b cs hb (announced.holds_iff.mp hcs)⟩
      rw [World.rows_withRows_of_ne _ _ hname.symm, announced.rows_eq, hw.rows]
    rcases t.journal_cases tx undo (w₁.withRows t.name rows') with h | ⟨b, u, -, h⟩
    · rw [h]
      exact hspares
    · rw [h]
      refine ⟨by rw [World.rows_journal, hspares.rows], fun b cs hb hcs c hc => ?_⟩
      obtain ⟨before, hbefore, rfl | rfl⟩ := World.holds_of_journal hcs
      · exact hspares.changes b _ hb hbefore c hc
      · rcases List.mem_cons.mp hc with rfl | hc
        · exact hname
        · exact hspares.changes b _ hb hbefore c hc
  | sql storage announced spoke =>
    refine ⟨?_, fun b cs hb hcs => hw.changes b cs hb ?_⟩
    · rw [World.rows_of_tables spoke.tables, announced.rows_eq, hw.rows]
    · exact announced.holds_iff.mp ((spoke.journals b _).mp hcs)

end Adapter.Effect

/-! ### Writes in a row -/

section Row

variable {tx : Transaction} {w w' v v' : World} {xs : List Attempt} {x : Attempt} {b : BackendId}

/-- The write is one of those in a row. It was made in the one world and has led to the other. -/
def Attempts.Includes (tx : Transaction) (w : World) (xs : List Attempt) (x : Attempt)
    (v v' : World) : Prop :=
  ∃ ys zs, xs = ys ++ x :: zs ∧ Attempts tx w ys v ∧
    x.store.adapter.write tx x.op x.entity v = (x.result, v')

lemma Attempts.holds (h : Attempts tx w xs w') (hw : ∃ cs, w.Holds b cs) :
    ∃ cs, w'.Holds b cs := by
  induction h with
  | nil => exact hw
  | @snoc xs w₁ w₂ s op e result init last ih =>
    have heffect := s.adapter.write_effect tx op e w₁
    rw [last] at heffect
    exact heffect.holds ih

lemma Attempts.spares (h : Attempts tx w xs w') {table : String} {rows : List Entity}
    (hne : ∀ x ∈ xs, ∀ t, x.store.adapter.storage = .memory t → t.name ≠ table)
    (hw : w.Spares tx table rows) : w'.Spares tx table rows := by
  induction h with
  | nil => exact hw
  | @snoc xs w₁ w₂ s op e result init last ih =>
    have heffect := s.adapter.write_effect tx op e w₁
    rw [last] at heffect
    exact heffect.spares (hne ⟨s, op, e, result⟩ (by simp)) (ih fun x hx => hne x (by simp [hx]))

end Row

/-! ### A commit -/

namespace UnitOfWork

variable {u u' : UnitOfWork} {tx : Transaction} {w w' : World} {table : String} {rows : List Entity}

lemma begin_of_openFor {types : List String} (h : u.openFor types w = (.ok tx, w')) {b : BackendId}
    (hb : tx.backend = some b) : Backend.call b .begin w = (.ok (), w') := by
  rw [openFor_eq] at h
  obtain ⟨_, w₁, hclose, h⟩ := bind_eq_ok.mp h
  cases h
  have hb : u.sharedBackend (u.participants types) = some b := hb
  rw [hb, Transaction.close_open] at hclose
  rcases hr : Backend.call b .begin w with ⟨report | x, w₂⟩
  · rw [hr] at hclose
    cases hclose
  · rw [hr] at hclose
    cases hclose
    rfl

lemma spares_openFor {types : List String} (h : u.openFor types w = (.ok tx, w')) (table : String) :
    w'.Spares tx table (w.rows table) := by
  refine ⟨by rw [World.rows_of_tables (tables_openFor h)], fun b cs hb hcs => ?_⟩
  rw [Backend.eq_nil_of_begin (begin_of_openFor h hb) hcs]
  simp

lemma spares_tryCommit {x : Except Error Transaction} (h : tx.tryCommit w = (x, w'))
    (hw : w.Spares tx table rows) : w'.Spares tx table rows := by
  refine ⟨by rw [World.rows_of_tables (Transaction.tables_tryCommit h), hw.rows],
    fun b cs hb hcs => hw.changes b cs hb ?_⟩
  have hworld := tx.world_tryCommit w
  obtain ⟨_ | b'⟩ := tx
  · cases hb
  · cases hb
    have hcs : ((⟨some b⟩ : Transaction).tryCommit w).2.Holds b cs := by rw [h]; exact hcs
    rw [hworld] at hcs
    exact Backend.holds_of_commit hcs

lemma rows_undoWrites {rolledBack : Bool} (h : undoWrites tx w = (rolledBack, w'))
    (hw : w.Spares tx table rows) : w'.rows table = rows := by
  unfold undoWrites Transaction.rollback at h
  obtain ⟨_ | b⟩ := tx
  · cases h
    exact hw.rows
  · rw [← hw.rows, ← Backend.rows_rollback (hw.changes b · rfl)]
    have hworld : w' = ((⟨some b⟩ : Transaction).close .rollback w).2 := by
      rcases hr : (⟨some b⟩ : Transaction).close .rollback w with ⟨_ | _, w₁⟩
      · rw [hr] at h
        cases h
        rfl
      · rw [hr] at h
        cases h
        rfl
    rw [hworld]
    rfl

/-- A table that no store which takes part keeps its entities in is left alone. -/
lemma Run.rows_eq {result : Except Error Committed} (h : u.Run w result w')
    (hne : ∀ s, u.Writes s → ∀ t, s.adapter.storage = .memory t → t.name ≠ table) :
    w'.rows table = w.rows table := by
  have hattempts : ∀ {tx w₁ xs w₂}, u.openFor u.types w = (.ok tx, w₁) → Attempts tx w₁ xs w₂ →
      (∀ x ∈ xs, u.Writes x.store) → w₂.Spares tx table (w.rows table) :=
    fun hopen hxs hstores =>
      hxs.spares (fun x hx => hne _ (hstores x hx)) (spares_openFor hopen table)
  cases h with
  | idle none => rfl
  | unopened work opened => rw [World.rows_of_tables (tables_openFor opened)]
  | committed work opened applied writes closed =>
    obtain ⟨xs, hxs, hstores, -⟩ := writes
    exact (spares_tryCommit closed (hattempts opened hxs hstores)).rows
  | halted work opened applied writes undone =>
    rcases writes with ⟨xs, hxs, hstores, -⟩ | ⟨xs, x, hxs, hstores, -⟩
    · exact rows_undoWrites undone (hattempts opened hxs hstores)
    · exact rows_undoWrites undone (hattempts opened hxs hstores)
  | refused first opened applied writes closed undone =>
    obtain ⟨xs, hxs, hstores, -⟩ := writes
    exact rows_undoWrites undone (spares_tryCommit closed (hattempts opened hxs hstores))

/-- Units of work as they are made: stores are registered, relations mapped and writes buffered, in
any order, and the buffers emptied by commits. -/
inductive Built : UnitOfWork → Prop
  | empty : Built {}
  | register {u : UnitOfWork} (h : Built u) (s : DataStore) : Built (u.register s)
  | relate {u u' : UnitOfWork} {r : Relation} (h : Built u) (hr : u.relate r = .ok u') : Built u'
  | map {u u' : UnitOfWork} {r : Relation} (h : Built u) (hr : u.map r = .ok u') : Built u'
  | buffer {u u' : UnitOfWork} {op : Operation} {T : EntityType} {e : Entity} (h : Built u)
    (hb : u.buffer op T e = .ok u') : Built u'
  | clear {u : UnitOfWork} (h : Built u) : Built u.clear

/-- To change a store in place keeps the names if it keeps its own. -/
lemma names_map_stores {f : DataStore → DataStore}
    (hf : ∀ s ∈ u.stores, (f s).type.name = s.type.name) :
    (u.stores.map f).map (·.type.name) = u.stores.map (·.type.name) := by
  rw [List.map_map]
  exact List.map_congr_left hf

lemma stores_relate {r : Relation} (h : u.relate r = .ok u') : u'.stores = u.stores := by
  unfold relate at h
  split at h
  · cases h
  · split at h
    · cases h
    · cases h
      rfl

/-- No type has two stores. -/
lemma Built.nodup (h : u.Built) : (u.stores.map (·.type.name)).Nodup := by
  induction h with
  | empty => exact List.nodup_nil
  | @register u _ s ih =>
    unfold UnitOfWork.register
    dsimp only
    split
    · rw [names_map_stores fun t _ => ?_]
      · exact ih
      · split
        · rename_i hname
          exact hname.symm
        · rfl
    · rename_i hnone
      rw [List.map_append]
      refine List.Nodup.append ih (List.nodup_singleton _) ?_
      rw [List.map_singleton, List.disjoint_singleton]
      intro hmem
      obtain ⟨t, ht, hname⟩ := List.mem_map.mp hmem
      exact hnone (List.find?_isSome.mpr ⟨t, ht, by simpa using hname⟩)
  | relate _ hr ih => rw [stores_relate hr]; exact ih
  | map _ hr ih =>
    unfold UnitOfWork.map at hr
    split at hr
    · rw [stores_relate hr]; exact ih
    · cases hr
  | @buffer u _ op T e _ hb ih =>
    obtain ⟨_, -, hb⟩ := except_bind_eq_ok.mp hb
    cases hb
    rw [names_map_stores fun t _ => ?_]
    · exact ih
    · split <;> rfl
  | @clear u _ ih =>
    have hnames : u.clear.stores.map (·.type.name) = u.stores.map (·.type.name) :=
      names_map_stores (f := DataStore.clear) fun _ _ => rfl
    rw [hnames]
    exact ih

/-- What the transaction covers of writes in a row, which was opened between two worlds: they go
through listed stores; if there is a backend, these all report it, and where it is a journal, that
is open and hears of the writes in its own tables. -/
structure Covers (u : UnitOfWork) (tx : Transaction) (w w₁ : World) (xs : List Attempt) : Prop where
  listed : ∀ x ∈ xs, x.store ∈ u.stores ∧ x.store.type.name ∈ u.participants u.types
  inside : ∀ b, tx.backend = some b → ∀ x ∈ xs, x.store.adapter.backend = some b
  journaled : ∀ b, tx.backend = some b →
    (∃ changes, w.backends.get? b = some (.journal changes)) →
    ∀ x v v', Attempts.Includes tx w₁ xs x v v' → ∀ t, x.store.adapter.storage = .memory t →
      x.store.adapter.backend = x.store.adapter.ownBackend →
      (∃ cs, v.Holds b cs) ∧ v.Journals b t x v'

lemma covers_of_attempts (hu : u.Built) {w₁ : World} {xs : List Attempt}
    (hopen : u.openFor u.types w = (.ok tx, w₁)) (hstores : ∀ x ∈ xs, u.Writes x.store) :
    u.Covers tx w w₁ xs := by
  have hshared : tx.backend = u.sharedBackend (u.participants u.types) := by
    rw [openFor_eq] at hopen
    obtain ⟨_, _, -, h⟩ := bind_eq_ok.mp hopen
    cases h
    rfl
  have hinside : ∀ b, tx.backend = some b → ∀ x ∈ xs, x.store.adapter.backend = some b := by
    intro b hb x hx
    obtain ⟨hmem, htakes⟩ := hstores x hx
    have hreport := (of_sharedBackend (hshared.symm.trans hb)).2 _
      ((mem_participants hu.nodup).mpr htakes)
    rw [store?_of_mem hu.nodup hmem] at hreport
    exact hreport
  refine ⟨fun x hx => ?_, hinside, ?_⟩
  · exact ⟨(hstores x hx).1, (mem_participants hu.nodup).mpr (hstores x hx).2⟩
  · rintro b hb ⟨changes, hjournal⟩ x v v' ⟨ys, zs, rfl, hys, hlast⟩ t hs hown
    have hopened := Backend.holds_begin hjournal (begin_of_openFor hopen hb)
    have htx : tx = ⟨some b⟩ := by rw [← hb]
    refine ⟨hys.holds ⟨[], hopened⟩, Attempt.journals hs ?_ (htx ▸ hlast)⟩
    have hreport := hinside b hb x (by simp)
    rw [hown, Adapter.ownBackend, hs] at hreport
    exact hreport

/-- There are listed stores, and all report the backend. -/
def Agree (u : UnitOfWork) (b : BackendId) : Prop :=
  u.participants u.types ≠ [] ∧
    ∀ T ∈ u.participants u.types, ∃ s, u.store? T = some s ∧ s.adapter.backend = some b

lemma agree_iff {b : BackendId} :
    u.Agree b ↔ u.sharedBackend (u.participants u.types) = some b := by
  constructor
  · rintro ⟨hne, hall⟩
    refine sharedBackend_eq hne fun T hT => ?_
    obtain ⟨s, hs, hb⟩ := hall T hT
    rw [hs]
    exact hb
  · intro h
    obtain ⟨hne, hall⟩ := of_sharedBackend h
    exact ⟨hne, fun T hT => Option.bind_eq_some_iff.mp (hall T hT)⟩

/-- **The transaction covers every write.** The scan for stores that take part ends, and lists each
of them once and no other. A commit opens a transaction where all listed stores report one backend,
and only there. It makes its writes through listed stores alone, so it covers them all, and tables
of other stores are left as they were, however it ends. The journal of the backend hears of every
write that goes through; one that fails has left the rows alone, or is an update that stopped
halfway. -/
theorem commit_covered (hu : u.Built) (w : World) :
    (u.Scans u.types 0 (u.participants u.types) ∧ (u.participants u.types).Nodup ∧
      ∀ T, T ∈ u.participants u.types ↔ u.TakesPart T) ∧
    ((∀ b, u.Agree b → u.openFor u.types = Transaction.begin b) ∧
      ((∀ b, ¬u.Agree b) → u.openFor u.types = pure .autocommit)) ∧
    (u.Run w (u.commit.1 w).1 (u.commit.1 w).2 ∧
      ∀ tx w₁ xs w₂, u.openFor u.types w = (.ok tx, w₁) → Attempts tx w₁ xs w₂ →
        (∀ x ∈ xs, u.Writes x.store) → u.Covers tx w w₁ xs) ∧
    ∀ table, (∀ s ∈ u.stores, s.type.name ∈ u.participants u.types →
        ∀ t, s.adapter.storage = .memory t → t.name ≠ table) →
      (u.commit.1 w).2.rows table = w.rows table := by
  have hlists := u.lists_batches hu.nodup
  have hscan := scans_participants hlists
  have hmem : ∀ T, T ∈ u.participants u.types ↔ u.TakesPart T := fun T => mem_participants hu.nodup
  refine ⟨⟨hscan, (hscan.lists hlists).nodup, hmem⟩, ⟨fun b hb => ?_, fun hnone => ?_⟩,
    ⟨u.commit_run w, fun tx w₁ xs w₂ hopen _ hstores => covers_of_attempts hu hopen hstores⟩,
    fun table hne => ?_⟩
  · unfold openFor
    rw [agree_iff.mp hb]
  · unfold openFor
    rcases hb : u.sharedBackend (u.participants u.types) with _ | b
    · rfl
    · exact absurd (agree_iff.mpr hb) (hnone b)
  · exact (u.commit_run w).rows_eq fun s hs t ht => hne s hs.1 ((hmem _).mpr hs.2) t ht

end UnitOfWork

namespace Census

def village : Declaration where
  name := "Village"
  fields := [("villageId", .int64), ("name", .text)]

def villages : Adapter :=
  adapter village "villages" "villageId" [⟨"name", some ⟨.text, false⟩, .scalar⟩]

/-- An identification has the persons whose key it bears. -/
def holders : Relation :=
  ⟨identification.type, "holders", person.type, ⟨"personId", "personId"⟩⟩

/-- Persons and identifications are mapped to each other, and a person is buffered to be inserted;
villages are registered too. -/
def circle : UnitOfWork where
  stores := [⟨people, [⟨.insert, eduard⟩]⟩, ⟨numbers, []⟩, ⟨villages, []⟩]
  relations := [identifications, holders]
  last := some "Village"

lemma circle_built : circle.Built := by
  have hstores : UnitOfWork.Built
      { stores := [⟨people, []⟩, ⟨numbers, []⟩, ⟨villages, []⟩], last := some "Village" } :=
    ((UnitOfWork.Built.empty.register ⟨people, []⟩).register ⟨numbers, []⟩).register ⟨villages, []⟩
  have hfirst : UnitOfWork.Built
      { stores := [⟨people, []⟩, ⟨numbers, []⟩, ⟨villages, []⟩], relations := [identifications],
        last := some "Village" } := hstores.relate (r := identifications) rfl
  have hboth : UnitOfWork.Built
      { stores := [⟨people, []⟩, ⟨numbers, []⟩, ⟨villages, []⟩],
        relations := [identifications, holders], last := some "Village" } :=
    hfirst.relate (r := holders) rfl
  have hbuffer : UnitOfWork.buffer
      { stores := [⟨people, []⟩, ⟨numbers, []⟩, ⟨villages, []⟩],
        relations := [identifications, holders], last := some "Village" }
      .insert person.type eduard = .ok circle := rfl
  exact hboth.buffer hbuffer

/-- The scan goes round the circle once; the transaction is the one of the census, and no village
changes. -/
theorem circle_covered : circle.participants circle.types = ["Person", "Identification"] ∧
    circle.Scans circle.types 0 ["Person", "Identification"] ∧
    circle.openFor circle.types = Transaction.begin (.memory "census") ∧
    (circle.commit.1 vacant).2.rows "villages" = vacant.rows "villages" := by
  have hlist : circle.participants circle.types = ["Person", "Identification"] := rfl
  obtain ⟨⟨hscan, -, -⟩, ⟨hopen, -⟩, -, hrows⟩ := UnitOfWork.commit_covered circle_built vacant
  refine ⟨hlist, hlist ▸ hscan, hopen _ (UnitOfWork.agree_iff.mpr rfl),
    hrows _ fun s hs ht t hst => ?_⟩
  rw [hlist] at ht
  simp only [circle, List.mem_cons, List.not_mem_nil, or_false] at hs
  rcases hs with rfl | rfl | rfl
  · cases hst; decide
  · cases hst; decide
  · exact absurd ht (by decide)

end Census

namespace Workshop

/-- An update of the drawer is buffered, to an owner and the stuck label. -/
def mending : UnitOfWork where
  stores := [⟨drawers, [⟨.update, labelled 1 (some 5) "jam"⟩]⟩]
  last := some "Drawer"

lemma mending_built : mending.Built := by
  have hbuffer : UnitOfWork.buffer { stores := [⟨drawers, []⟩], last := some "Drawer" } .update
      stuck (labelled 1 (some 5) "jam") = .ok mending := rfl
  exact (UnitOfWork.Built.empty.register ⟨drawers, []⟩).buffer hbuffer

/-- The commit makes its one write in the transaction of the workshop. It changes the drawer, and
the journal does not hear of it; so the rollback leaves the drawer changed. -/
theorem mending_uncovered :
    mending.Built ∧ mending.openFor mending.types bench = (.ok tx, opened) ∧
    drawers.write tx .update (labelled 1 (some 5) "jam") opened =
      (.error (.materialization "label" (.int 13)), jammed) ∧
    jammed.rows "drawers" ≠ opened.rows "drawers" ∧ jammed.Holds (.memory "workshop") [] ∧
    ∃ w', mending.commit.1 bench = (.error (.commit 0 true "Drawer" .update
        (.materialization "label" (.int 13))), w') ∧
      w'.rows "drawers" ≠ bench.rows "drawers" :=
  ⟨mending_built, rfl, update_jams, owned_ne, rfl, _, rfl, owned_ne⟩

end Workshop

end EntityStore
