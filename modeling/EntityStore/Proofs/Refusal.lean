import EntityStore.Proofs.Storing

/-!
Writes that are refused, for any type of entity: one whose accessors were written by hand may hide a
field that it declares, or refuse a value that it shows. A creation and a deletion that fail have
done nothing. An update assigns field by field, and keeps what it has assigned to the row before the
field that is refused; no journal knows of it.
-/

namespace EntityStore

open Fallible

namespace Table

variable {T : EntityType} {s : Schema} {op : Operation} {e row row' : Entity}
  {rows rows' : List Entity} {fields : List String} {err : Error}

/-- The row that an update finds, with the fields assigned that come before the one refused. -/
inductive StopsHalfway (T : EntityType) (s : Schema) (e : Entity) (rows : List Entity)
    (err : Error) : List Entity → Prop
  | intro {key : Value} {i : Nat} {before row : Entity} {assigned rest : List String}
    {field : String} (keyed : s.keyOf T e = .ok key)
    (found : find? T s.key key rows = some (i, before))
    (fields : s.persistedWithoutKey = assigned ++ field :: rest)
    (stored : overwrite T e assigned before = (row, none))
    (refused : (T.read e field >>= T.assign row field) = .error err) :
    StopsHalfway T s e rows err (rows.set i row)

/-- The fields of an entity are assigned up to the one that is refused. -/
lemma overwrite_eq_error (h : overwrite T e fields row = (row', some err)) :
    ∃ assigned field rest, fields = assigned ++ field :: rest ∧
      overwrite T e assigned row = (row', none) ∧
      (T.read e field >>= T.assign row' field) = .error err := by
  induction fields generalizing row with
  | nil => cases h
  | cons f fields ih =>
    rw [overwrite] at h
    rcases hf : T.read e f >>= T.assign row f with err' | row₁
    · rw [hf] at h
      cases h
      exact ⟨[], f, fields, rfl, rfl, hf⟩
    · rw [hf] at h
      obtain ⟨assigned, field, rest, rfl, hstored, hrefused⟩ := ih h
      refine ⟨f :: assigned, field, rest, rfl, ?_, hrefused⟩
      rw [overwrite, hf]
      exact hstored

lemma create_refused (h : (create T s e rows).result = .error err) :
    (create T s e rows).rows = rows ∧ (create T s e rows).undo = none := by
  refine ⟨create_failed h, ?_⟩
  unfold create at h ⊢
  split at h
  · cases h
  · rfl

lemma update_refused (h : (update T s e rows).result = .error err) :
    ((update T s e rows).rows = rows ∨ StopsHalfway T s e rows err (update T s e rows).rows) ∧
      (update T s e rows).undo = none := by
  unfold update at h ⊢
  split at h
  · exact ⟨.inl rfl, rfl⟩
  · rename_i key hkey
    split at h
    · cases h
    · rename_i i before hfind
      split at h
      · cases h
      · rename_i row err' hover
        cases h
        obtain ⟨assigned, field, rest, hfields, hstored, hrefused⟩ := overwrite_eq_error hover
        exact ⟨.inr (.intro hkey hfind hfields hstored hrefused), rfl⟩

lemma delete_refused (h : (delete T s e rows).result = .error err) :
    (delete T s e rows).rows = rows ∧ (delete T s e rows).undo = none := by
  refine ⟨delete_failed h, ?_⟩
  unfold delete at h ⊢
  split at h
  · rfl
  · split at h <;> cases h

/-- A write that fails has nothing to be undone. It has left the rows alone, or is an update that
stops halfway. -/
lemma write_refused (h : (write T s op e rows).result = .error err) :
    ((write T s op e rows).rows = rows ∨
        op = .update ∧ StopsHalfway T s e rows err (write T s op e rows).rows) ∧
      (write T s op e rows).undo = none := by
  cases op with
  | insert => exact (create_refused h).imp_left .inl
  | update => exact (update_refused (Outcome.giving_eq_error h)).imp_left (.imp_right (⟨rfl, ·⟩))
  | delete => exact (delete_refused (Outcome.giving_eq_error h)).imp_left .inl

end Table

namespace Adapter

variable {a : Adapter} {t : MemoryTable} {tx : Transaction} {op : Operation} {e : Entity}
  {w w' : World} {err : Error}

/-- To announce a write changes neither tables nor journals. -/
lemma announce_keeps {x : Except Error Unit} (h : a.announce op e w = (x, w')) :
    w'.rows = w.rows ∧ w'.backends = w.backends := by
  rcases a.announce_cases op e w with ⟨err, hann⟩ | ⟨result, guard, key, hann⟩
  · obtain ⟨-, rfl⟩ := Prod.mk.inj (hann.symm.trans h)
    exact ⟨rfl, rfl⟩
  · obtain ⟨-, rfl⟩ := Prod.mk.inj (hann.symm.trans h)
    exact ⟨rfl, rfl⟩

/-- A write that fails keeps the journals; it has left the tables alone, or stops halfway. -/
lemma refused_cases (hm : a.storage = .memory t) (h : a.write tx op e w = (.error err, w')) :
    w'.backends = w.backends ∧ (w'.rows = w.rows ∨ op = .update ∧ ∃ rows,
      Table.StopsHalfway a.type a.schema e (w.rows t.name) err rows ∧
        w'.rows = Function.update w.rows t.name rows) := by
  rw [write_memory hm] at h
  rcases bind_eq_error.mp h with h | ⟨_, w₁, hann, h⟩
  · obtain ⟨hrows, hbackends⟩ := announce_keeps h
    exact ⟨hbackends, .inl hrows⟩
  · obtain ⟨hrows, hbackends⟩ := announce_keeps hann
    obtain ⟨hresult, rfl⟩ := Prod.mk.inj h
    obtain ⟨hcases, hundo⟩ := Table.write_refused hresult
    rw [hundo, World.journal_nothing, World.rows_withRows]
    rw [hrows] at hcases ⊢
    refine ⟨hbackends, hcases.imp (fun heq => ?_) fun ⟨hop, hstops⟩ => ⟨hop, _, hstops, rfl⟩⟩
    rw [heq, Function.update_eq_self]

/-- **Writes that fail.** No journal hears of a write that fails. Either all tables are as they
were, and a transaction still leads back to where it began; or the write is an update, and its row
keeps what was assigned to it before the field that is refused. -/
theorem refused_write (hm : a.storage = .memory t) (h : a.write tx op e w = (.error err, w')) :
    w'.backends = w.backends ∧
      ((w'.rows = w.rows ∧ ∀ b tables, w.Journaled b tables →
          ∃ w'', Transaction.rollback ⟨some (.memory b)⟩ w' = (.ok (), w'') ∧ w''.rows = tables) ∨
        op = .update ∧ ∃ rows, rows ≠ w.rows t.name ∧
          Table.StopsHalfway a.type a.schema e (w.rows t.name) err rows ∧
          w'.rows = Function.update w.rows t.name rows) := by
  obtain ⟨hbackends, hcases⟩ := refused_cases hm h
  refine ⟨hbackends, ?_⟩
  by_cases hrows : w'.rows = w.rows
  · refine .inl ⟨hrows, fun b tables hb => ?_⟩
    obtain ⟨w'', hroll, htables, -⟩ := World.rollback_journal (hb.congr hrows hbackends)
    exact ⟨w'', hroll, htables⟩
  · obtain ⟨hop, rows, hstops, hupdate⟩ := hcases.resolve_left hrows
    refine .inr ⟨hop, rows, fun heq => hrows ?_, hstops, hupdate⟩
    rw [hupdate, heq, Function.update_eq_self]

end Adapter

/-! ### A drawer that is stuck -/

namespace Workshop

/-- The fields of a drawer. -/
def drawer : Declaration where
  name := "Drawer"
  fields := [("id", .int64), ("owner", .optional .int64), ("label", .text)]

/-- Drawers whose accessor was written by hand: it shows the label "jam" as a number, which the
label does not take. -/
def stuck : EntityType :=
  { drawer.type with
    get := fun r field => match field, r.lookup "label" with
      | "label", some (.text "jam") => some (.int 13)
      | _, _ => r.lookup field }

def drawers : Adapter where
  type := stuck
  schema := ⟨"Drawer", [⟨"id", some ⟨.integer, false⟩, .key true⟩,
    ⟨"owner", some ⟨.integer, true⟩, .scalar⟩, ⟨"label", some ⟨.text, false⟩, .scalar⟩], "id", true⟩
  storage := .memory ⟨"drawers", some "workshop"⟩

def labelled (id : Int64) (owner : Option Int64) (label : String) : Entity where
  scalars := [("id", .int id), ("owner", (FieldKind.optional .int64).toValue owner),
    ("label", .text label)]
  children := []

/-- One drawer, which nobody owns. -/
def bench : World where
  tables := [("drawers", [labelled 1 none "nails"])]
  backends := [(.memory "workshop", .journal none)]

def tx : Transaction := ⟨some (.memory "workshop")⟩

/-- The bench with the transaction open. -/
def opened : World := (Transaction.begin (.memory "workshop") bench).2

/-- What an update to an owner and the stuck label has left. -/
def jammed : World := (drawers.write tx .update (labelled 1 (some 5) "jam") opened).2

lemma opened_journaled : opened.Journaled "workshop" bench.rows := by
  obtain ⟨w, hbegin, hjournaled⟩ := World.begin_journal (b := "workshop") (w := bench) rfl
  rwa [opened, hbegin]

lemma update_jams : drawers.write tx .update (labelled 1 (some 5) "jam") opened =
    (.error (.materialization "label" (.int 13)), jammed) := rfl

lemma create_jams : drawers.write tx .insert (labelled 0 none "jam") opened =
    (.error (.materialization "label" (.int 13)),
      (drawers.write tx .insert (labelled 0 none "jam") opened).2) := rfl

lemma jammed_rows : jammed.rows "drawers" = [labelled 1 (some 5) "nails"] := rfl

/-- The drawer has an owner now. -/
lemma owned_ne : [labelled 1 (some 5) "nails"] ≠ [labelled 1 none "nails"] := by
  intro h
  have howner := congrArg (List.map fun row => row.scalars.integer? "owner") h
  cases howner

/-- The update keeps the owner and not the label; a creation keeps nothing, and can be rolled
back. -/
theorem drawers_refused :
    (drawers.write tx .update (labelled 1 (some 5) "jam") opened =
        (.error (.materialization "label" (.int 13)), jammed) ∧
      jammed.backends = opened.backends ∧
      Table.StopsHalfway stuck drawers.schema (labelled 1 (some 5) "jam") (opened.rows "drawers")
        (.materialization "label" (.int 13)) [labelled 1 (some 5) "nails"]) ∧
    ∃ w w', drawers.write tx .insert (labelled 0 none "jam") opened =
        (.error (.materialization "label" (.int 13)), w) ∧
      tx.rollback w = (.ok (), w') ∧ w'.rows = bench.rows := by
  obtain ⟨hbackends, hupdate⟩ := Adapter.refused_write rfl update_jams
  obtain ⟨-, hcreate⟩ := Adapter.refused_write rfl create_jams
  refine ⟨⟨rfl, hbackends, ?_⟩, ?_⟩
  · rcases hupdate with ⟨hrows, -⟩ | ⟨-, rows, -, hstops, hrows⟩
    · exact absurd (jammed_rows.symm.trans (congrFun hrows "drawers")) owned_ne
    · have heq : [labelled 1 (some 5) "nails"] = rows := by
        rw [← jammed_rows, hrows]
        exact Function.update_self ..
      exact heq ▸ hstops
  · rcases hcreate with ⟨-, hback⟩ | ⟨hop, -⟩
    · obtain ⟨w', hroll, hrows⟩ := hback "workshop" bench.rows opened_journaled
      exact ⟨_, w', rfl, hroll, hrows⟩
    · cases hop

/-- An update that fails changes its table, and a rollback does not restore it. -/
theorem jammed_kept : ∃ w', Transaction.begin (.memory "workshop") bench = (.ok tx, opened) ∧
    drawers.write tx .update (labelled 1 (some 5) "jam") opened =
      (.error (.materialization "label" (.int 13)), jammed) ∧
    jammed.rows "drawers" ≠ opened.rows "drawers" ∧
    tx.rollback jammed = (.ok (), w') ∧ w'.rows "drawers" ≠ bench.rows "drawers" :=
  ⟨(tx.rollback jammed).2, rfl, rfl, owned_ne, rfl, owned_ne⟩

end Workshop

end EntityStore
