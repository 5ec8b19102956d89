import EntityStore.Proofs.Entries
import EntityStore.Proofs.Growth

/-!
Updates with what hangs below them. Under generated keys an update stores the scalars of an entity
over its row, and a creation adds a row under a key above all others; so what a tree of both leaves
of a table is its rows, in place, with some stored over, and the new ones after them.
-/

namespace EntityStore

open Fallible

/-! ### One table -/

namespace Table

variable {d : Declaration} {s : Schema} {e row : Entity} {rows : List Entity} {key : String}
  {r : Record}

/-- The scalars are stored over the row if they have its key. -/
def revise (key : String) (r : Record) (row : Entity) : Entity :=
  if row.scalars.integer? key = r.integer? key then { row with scalars := r } else row

@[simp] lemma key_revise (key : String) (r : Record) (row : Entity) :
    (revise key r row).scalars.integer? key = row.scalars.integer? key := by
  unfold revise
  split
  · rename_i h
    exact h.symm
  · rfl

@[simp] lemma keys_map_revise (key : String) (r : Record) (rows : List Entity) :
    keys key (rows.map (revise key r)) = keys key rows := by
  simp [keys, Function.comp_def]

/-- Under other keys nothing is stored. -/
lemma map_revise_eq_self (h : ∀ row ∈ rows, row.scalars.integer? key ≠ r.integer? key) :
    rows.map (revise key r) = rows :=
  (List.map_congr_left fun row hrow => if_neg (h row hrow)).trans (List.map_id _)

lemma WellKeyed.revise (h : WellKeyed d key rows) (hr : d.Fits r) :
    WellKeyed d key (rows.map (Table.revise key r)) where
  fits x hx := by
    obtain ⟨row, hrow, rfl⟩ := List.mem_map.mp hx
    unfold Table.revise
    split
    · exact hr
    · exact h.fits row hrow
  distinct := by
    rw [keys_map_revise]
    exact h.distinct

/-- An update stores the scalars of the entity over the row of its key, wherever that is. -/
lemma WellKeyed.update_rows (hs : s.IsOf d.type) (hk : d.HasInteger s.key)
    (h : WellKeyed d s.key rows) (he : d.Fits e.scalars) :
    (update d.type s e rows).rows = rows.map (Table.revise s.key e.scalars) := by
  rcases update_cases hs hk h.fits he with
    ⟨hupdate, hnone⟩ | ⟨before, row, after, rfl, hrow, hbefore, hupdate⟩
  · rw [hupdate, map_revise_eq_self fun row hrow => hnone _ (List.mem_map_of_mem hrow)]
  · have hafter : ∀ x ∈ after, x.scalars.integer? s.key ≠ e.scalars.integer? s.key := by
      intro x hx heq
      have hdistinct := h.distinct
      rw [keys, List.map_append, List.map_cons] at hdistinct
      have hnotin := (List.nodup_cons.mp (List.nodup_append.mp hdistinct).2.1).1
      rw [hrow, ← heq] at hnotin
      exact hnotin (List.mem_map_of_mem (f := fun row : Entity => row.scalars.integer? s.key) hx)
    rw [hupdate, List.map_append, List.map_cons, map_revise_eq_self hafter,
      map_revise_eq_self fun x hx => hbefore _ (List.mem_map_of_mem hx), Table.revise, if_pos hrow]

/-! ### Several records over a row -/

/-- Of some scalars, those with the key of the row are stored over it, one after another. -/
def reviseAll (key : String) (rs : List Record) (row : Entity) : Entity :=
  rs.foldl (fun row r => revise key r row) row

lemma reviseAll_snoc (key : String) (rs : List Record) (r : Record) (row : Entity) :
    reviseAll key (rs ++ [r]) row = revise key r (reviseAll key rs row) := by
  rw [reviseAll, List.foldl_append]
  rfl

@[simp] lemma key_reviseAll (key : String) (rs : List Record) (row : Entity) :
    (reviseAll key rs row).scalars.integer? key = row.scalars.integer? key := by
  induction rs generalizing row with
  | nil => rfl
  | cons r rs ih => exact (ih _).trans (key_revise key r row)

lemma reviseAll_eq_self {rs : List Record}
    (h : ∀ r ∈ rs, row.scalars.integer? key ≠ r.integer? key) : reviseAll key rs row = row := by
  induction rs with
  | nil => rfl
  | cons r rs ih =>
    have hsame : revise key r row = row := if_neg (h r (by simp))
    rw [reviseAll, List.foldl_cons, hsame]
    exact ih fun r' hr' => h r' (by simp [hr'])

/-- Scalars whose key none of the others has are there in the end. -/
lemma reviseAll_eq {rs : List Record}
    (hd : rs.Pairwise fun r r' => r.integer? key ≠ r'.integer? key) (hr : r ∈ rs)
    (hrow : row.scalars.integer? key = r.integer? key) :
    reviseAll key rs row = { row with scalars := r } := by
  induction rs with
  | nil => cases hr
  | cons r' rs ih =>
    obtain ⟨hhead, htail⟩ := List.pairwise_cons.mp hd
    rw [reviseAll, List.foldl_cons]
    rcases List.mem_cons.mp hr with rfl | hr
    · have hover : revise key r row = { row with scalars := r } := if_pos hrow
      rw [hover]
      exact reviseAll_eq_self hhead
    · have hsame : revise key r' row = row :=
        if_neg fun h => hhead r hr (h.symm.trans hrow)
      rw [hsame]
      exact ih htail hr

end Table

/-! ### Entries over a table -/

namespace DataStore

variable (s : DataStore)

/-- The entries of one kind of write for the table. -/
def entriesOf (op : Operation) (ys : List Entry) : List Entry :=
  ys.filter fun y => y.op = op ∧ y.type = s.type.name

/-- A row with what the updates among the entries store over it. -/
def revised (ys : List Entry) (row : Entity) : Entity :=
  Table.reviseAll s.adapter.schema.key ((s.entriesOf .update ys).map Entry.sent) row

/-- The rows that the creations among the entries add. -/
def created (ys : List Entry) : List Entity :=
  (s.entriesOf .insert ys).map fun y => s.type.bare ⟨y.left, []⟩

variable {s} {op : Operation} {y : Entry} {ys : List Entry}

lemma mem_entriesOf : y ∈ s.entriesOf op ys ↔ y ∈ ys ∧ y.op = op ∧ y.type = s.type.name := by
  simp [entriesOf]

lemma entriesOf_snoc_of_ne (h : ¬(y.op = op ∧ y.type = s.type.name)) :
    s.entriesOf op (ys ++ [y]) = s.entriesOf op ys := by
  simp [entriesOf, h]

lemma entriesOf_snoc (hop : y.op = op) (htype : y.type = s.type.name) :
    s.entriesOf op (ys ++ [y]) = s.entriesOf op ys ++ [y] := by
  simp [entriesOf, hop, htype]

lemma revised_snoc_update (sent left : Record) (row : Entity) :
    s.revised (ys ++ [⟨.update, s.type.name, sent, left⟩]) row =
      Table.revise s.adapter.schema.key sent (s.revised ys row) := by
  rw [revised, entriesOf_snoc (y := ⟨.update, s.type.name, sent, left⟩) rfl rfl, List.map_append,
    List.map_singleton, Table.reviseAll_snoc]
  rfl

lemma revised_snoc_insert (sent left : Record) :
    s.revised (ys ++ [⟨.insert, s.type.name, sent, left⟩]) = s.revised ys := by
  funext row
  rw [revised, entriesOf_snoc_of_ne (by simp)]
  rfl

lemma created_snoc_insert (sent left : Record) :
    s.created (ys ++ [⟨.insert, s.type.name, sent, left⟩]) =
      s.created ys ++ [s.type.bare ⟨left, []⟩] := by
  rw [created, entriesOf_snoc (y := ⟨.insert, s.type.name, sent, left⟩) rfl rfl, List.map_append]
  rfl

lemma created_snoc_update (sent left : Record) :
    s.created (ys ++ [⟨.update, s.type.name, sent, left⟩]) = s.created ys := by
  rw [created, entriesOf_snoc_of_ne (by simp)]
  rfl

@[simp] lemma key_revised (ys : List Entry) (row : Entity) :
    (s.revised ys row).scalars.integer? s.adapter.schema.key =
      row.scalars.integer? s.adapter.schema.key := Table.key_reviseAll _ _ _

end DataStore

namespace UnitOfWork

variable {u : UnitOfWork} {Γ : Declarations} {tx : Transaction} {w w₁ w₂ : World} {ys : List Entry}
  {s : DataStore} {e e' : Entity}

/-- All entities are kept in tables in memory under generated keys, and every navigation is mapped
at most once, to a field of the child that is not its key. -/
structure Revisable (Γ : Declarations) (u : UnitOfWork) : Prop where
  declared : u.Declared Γ
  names : (u.stores.map (·.type.name)).Nodup
  tables : (u.stores.map DataStore.table).Nodup
  generates : ∀ s ∈ u.stores, ∃ t, s.adapter.Generates Γ t
  once : u.MapsOnce
  fields : ∀ r ∈ u.relations, ∀ s, u.store? r.child.name = some s →
    r.join.childField ≠ s.adapter.schema.key

/-- The tables have their rows, with the updates among the entries stored over them, and after them
the rows of the creations, under keys above theirs. -/
structure Revises (Γ : Declarations) (u : UnitOfWork) (ys : List Entry) (w w' : World) : Prop where
  rows : ∀ s ∈ u.stores, w'.rows s.table = (w.rows s.table).map (s.revised ys) ++ s.created ys
  fresh : ∀ s ∈ u.stores, ∀ row ∈ s.created ys, ∃ k,
    row.scalars.integer? s.adapter.schema.key = some k ∧
      Table.Above (Table.keys s.adapter.schema.key (w.rows s.table)) k
  wellKeyed : u.WellKeyed Γ w'
  others : ∀ table, (∀ s ∈ u.stores, s.table ≠ table) → w'.rows table = w.rows table

lemma Revises.nil (hw : u.WellKeyed Γ w) : u.Revises Γ [] w w where
  rows s _ := by
    have hid : s.revised [] = id := rfl
    rw [hid, List.map_id]
    exact (List.append_nil _).symm
  fresh _ _ _ h := nomatch h
  wellKeyed := hw
  others _ _ := rfl

/-- A write changes one table alone. -/
lemma Revises.snoc (hu : u.Revisable Γ) (h : u.Revises Γ ys w w₁) {y : Entry} (hs : s ∈ u.stores)
    (htype : y.type = s.type.name) {rows : List Entity}
    (htable : w₂.rows = Function.update w₁.rows s.table rows)
    (hrows : rows = (w.rows s.table).map (s.revised (ys ++ [y])) ++ s.created (ys ++ [y]))
    (hfresh : ∀ row ∈ s.created (ys ++ [y]), ∃ k,
      row.scalars.integer? s.adapter.schema.key = some k ∧
        Table.Above (Table.keys s.adapter.schema.key (w.rows s.table)) k)
    (hwell : Table.WellKeyed (Γ.of s.type.name) s.adapter.schema.key rows) :
    u.Revises Γ (ys ++ [y]) w w₂ := by
  have hother : ∀ s' ∈ u.stores, s' ≠ s →
      (∀ op, s'.entriesOf op (ys ++ [y]) = s'.entriesOf op ys) ∧
        w₂.rows s'.table = w₁.rows s'.table := by
    intro s' hs' hne
    refine ⟨fun op => DataStore.entriesOf_snoc_of_ne fun hy => hne ?_, ?_⟩
    · exact List.inj_on_of_nodup_map hu.names hs' hs (hy.2.symm.trans htype)
    · have hne' : s'.table ≠ s.table := fun heq =>
        hne (List.inj_on_of_nodup_map hu.tables hs' hs heq)
      rw [htable, Function.update_of_ne hne']
  refine ⟨fun s' hs' => ?_, fun s' hs' => ?_, fun s' hs' => ?_, fun table ht => ?_⟩
  · by_cases heq : s' = s
    · rw [heq, htable, Function.update_self, hrows]
    · obtain ⟨hentries, hsame⟩ := hother s' hs' heq
      have hrevised : s'.revised (ys ++ [y]) = s'.revised ys := by
        funext row
        rw [DataStore.revised, DataStore.revised, hentries]
      rw [hsame, hrevised, DataStore.created, hentries]
      exact h.rows s' hs'
  · by_cases heq : s' = s
    · rw [heq]
      exact hfresh
    · rw [DataStore.created, (hother s' hs' heq).1]
      exact h.fresh s' hs'
  · by_cases heq : s' = s
    · rw [heq, htable, Function.update_self]
      exact hwell
    · rw [(hother s' hs' heq).2]
      exact h.wellKeyed s' hs'
  · rw [htable, Function.update_of_ne (ht s hs).symm]
    exact h.others table ht

lemma Revises.keys_eq (h : u.Revises Γ ys w w₁) (hs : s ∈ u.stores) :
    Table.keys s.adapter.schema.key (w₁.rows s.table) =
      Table.keys s.adapter.schema.key (w.rows s.table) ++
        Table.keys s.adapter.schema.key (s.created ys) := by
  rw [h.rows s hs, Table.keys_append]
  congr 1
  simp [Table.keys, Function.comp_def]

/-- A creation adds its row, under a key above all that there are. -/
lemma Revises.insert (hu : u.Revisable Γ) (h : u.Revises Γ ys w w₁) (hs : s ∈ u.stores)
    (he : Γ.Has s.type.name e) (hwrite : s.adapter.write tx .insert e w₁ = (.ok e', w₂)) :
    u.Revises Γ (ys ++ [⟨.insert, s.type.name, e.scalars, e'.scalars⟩]) w w₂ := by
  obtain ⟨t, ht⟩ := hu.generates s hs
  have htable : s.table = t.name := by rw [DataStore.table, ht.storage]
  have hwell := h.wellKeyed s hs
  rw [htable] at hwell
  obtain ⟨k, habove, rfl, hfits, htables⟩ := ht.create_ok hwell.fits he.scalars hwrite
  rw [← htable] at habove htables
  have hkey := Record.integer?_put_self (ht.key.mem_names he.scalars) k
  refine h.snoc hu hs rfl (Adapter.rows_of_put htables) ?_ ?_ ?_
  · rw [DataStore.revised_snoc_insert, DataStore.created_snoc_insert, h.rows s hs,
      List.append_assoc]
    rfl
  · intro row hrow
    rw [DataStore.created_snoc_insert, List.mem_append, List.mem_singleton] at hrow
    rcases hrow with hrow | rfl
    · exact h.fresh s hs row hrow
    · refine ⟨k, hkey, habove.pos, fun j hj => habove.greater j ?_⟩
      rw [h.keys_eq hs]
      exact List.mem_append_left _ hj
  · exact (h.wellKeyed s hs).append hfits hkey habove

/-- An update stores its scalars over a row of before. -/
lemma Revises.update (hu : u.Revisable Γ) (h : u.Revises Γ ys w w₁) (hs : s ∈ u.stores)
    (he : Γ.Has s.type.name e) (hstored : e.scalars.integer? s.adapter.schema.key ∈
      Table.keys s.adapter.schema.key (w.rows s.table))
    (hwrite : s.adapter.write tx .update e w₁ = (.ok e', w₂)) :
    u.Revises Γ (ys ++ [⟨.update, s.type.name, e.scalars, e'.scalars⟩]) w w₂ := by
  obtain ⟨t, ht⟩ := hu.generates s hs
  have htable : s.table = t.name := by rw [DataStore.table, ht.storage]
  obtain ⟨-, hrows⟩ := Adapter.write_eq_ok ht.storage hwrite
  have hT : s.adapter.type = (Γ.of s.adapter.type.name).type := ht.declared.type
  have hschema : s.adapter.schema.IsOf (Γ.of s.adapter.type.name).type := hT ▸ ht.declared.schema
  have hupdate : (Table.write s.adapter.type s.adapter.schema .update e (w₁.rows t.name)).rows =
      (w₁.rows s.table).map (Table.revise s.adapter.schema.key e.scalars) := by
    rw [hT, ← htable]
    exact (h.wellKeyed s hs).update_rows hschema ht.key he.scalars
  rw [hupdate, ← htable] at hrows
  -- The key is one of before, and the rows that were created have keys above those.
  have hnone : ∀ row ∈ s.created ys, row.scalars.integer? s.adapter.schema.key ≠
      e.scalars.integer? s.adapter.schema.key := by
    intro row hrow heq
    obtain ⟨k, hk, habove⟩ := h.fresh s hs row hrow
    rw [← heq, hk] at hstored
    exact habove.notMem hstored
  refine h.snoc hu hs rfl hrows ?_ ?_ ((h.wellKeyed s hs).revise he.scalars)
  · rw [h.rows s hs, List.map_append, Table.map_revise_eq_self hnone, List.map_map,
      DataStore.created_snoc_update]
    congr 1
    exact List.map_congr_left fun row _ => (DataStore.revised_snoc_update _ _ row).symm
  · rw [DataStore.created_snoc_update]
    exact h.fresh s hs

/-- Writes that go through, of which none is a deletion and each update finds its row, leave what
their entries say. -/
lemma Revisable.revises (hu : u.Revisable Γ) (hw : u.WellKeyed Γ w) {xs : List Attempt}
    (h : Attempts tx w xs w₁) (hproper : ∀ x ∈ xs, u.Proper Γ x) (hop : ∀ x ∈ xs, x.op ≠ .delete)
    (hstored : ∀ x ∈ xs, x.op = .update → x.entity.scalars.integer? x.store.adapter.schema.key ∈
      Table.keys x.store.adapter.schema.key (w.rows x.store.table)) :
    u.Revises Γ (xs.map Attempt.entry) w w₁ := by
  induction h with
  | nil => exact .nil hw
  | @snoc xs w₁ w₂ s op e result init last ih =>
    have hinit := ih (fun x hx => hproper x (by simp [hx])) (fun x hx => hop x (by simp [hx]))
      fun x hx => hstored x (by simp [hx])
    have hlast := hproper ⟨s, op, e, result⟩ (by simp)
    obtain ⟨e', rfl⟩ := hlast.result_eq
    rw [List.map_append, List.map_singleton]
    cases op with
    | insert => exact hinit.insert hu hlast.store hlast.has last
    | update => exact hinit.update hu hlast.store hlast.has (hstored _ (by simp) rfl) last
    | delete => exact absurd rfl (hop ⟨s, .delete, e, .ok e'⟩ (by simp))

end UnitOfWork

end EntityStore
