import EntityStore.Proofs.Links
import EntityStore.Proofs.Revision

/-!
What an update does to the tables. It goes down to all that hangs below the entity: what carries a
key is stored over its row, unless it hangs below a new entity; what carries none is created, with
all below it. No other row is touched or moved.
-/

namespace EntityStore

open Fallible

/-- A generated key is still to be assigned where it is null or zero. -/
lemma Schema.isTransient_eq {s : Schema} {d : Declaration} {e : Entity} (hg : s.generated = true)
    (he : d.Fits e.scalars) (hk : d.HasInteger s.key) : s.isTransient d.type e = true ↔
      e.scalars.integer? s.key = none ∨ e.scalars.integer? s.key = some 0 := by
  have hread : d.type.read? e s.key = _ := he.lookup_integer hk
  rw [isTransient, hg, hread]
  rcases e.scalars.integer? s.key with _ | k <;> simp [Value.ofInteger?]

/-- A table after entries: each update is stored over the row of its key, the other rows are as they
were, and all are in their places; after them come the rows of the creations, under keys above those
that were there. -/
structure DataStore.Overlaid (s : DataStore) (ys : List Entry) (rows rows' : List Entity) :
    Prop where
  eq : rows' = rows.map (s.revised ys) ++ s.created ys
  updated : ∀ y ∈ s.entriesOf .update ys, ∃ row ∈ rows,
    row.scalars.integer? s.adapter.schema.key = y.sent.integer? s.adapter.schema.key ∧
      s.revised ys row = { row with scalars := y.sent }
  kept : ∀ row ∈ rows, (∀ y ∈ s.entriesOf .update ys,
    row.scalars.integer? s.adapter.schema.key ≠ y.sent.integer? s.adapter.schema.key) →
      s.revised ys row = row
  fresh : ∀ row ∈ s.created ys, ∃ k, row.scalars.integer? s.adapter.schema.key = some k ∧
    Table.Above (Table.keys s.adapter.schema.key rows) k

namespace UnitOfWork

/-! ### Ways to be written -/

section Modes

variable (u : UnitOfWork)

/-- The key in the scalars of an entity, unless it is null. -/
def keyOf (name : String) (r : Record) : Option Int64 :=
  (u.store? name).bind fun s => r.integer? s.adapter.schema.key

/-- The entity carries no key: null or zero. -/
def Keyless (T : EntityType) (e : Entity) : Prop :=
  u.keyOf T.name e.scalars = none ∨ u.keyOf T.name e.scalars = some 0

instance (T : EntityType) (e : Entity) : Decidable (u.Keyless T e) :=
  inferInstanceAs (Decidable (_ ∨ _))

/-- There is a row under the key that the entity carries. -/
def Stored (w : World) (T : EntityType) (e : Entity) : Prop :=
  ∃ s, u.store? T.name = some s ∧
    e.scalars.integer? s.adapter.schema.key ∈ Table.keys s.adapter.schema.key (w.rows s.table)

/-- A child is written as its parent is, but for one without a key: that is created in any case. -/
def modeBelow (op : Operation) (T : EntityType) (c : Entity) : Operation :=
  if op = .update ∧ u.Keyless T c then .insert else op

/-- The nodes of an entity, each with the way it is written if the entity is in a given one. -/
def modes (op : Operation) (T : EntityType) (e : Entity) : List (Operation × EntityType × Entity) :=
  (op, T, e) :: (u.below T e).attach.flatMap fun ⟨(r, c), _⟩ =>
    modes (u.modeBelow op r.child c) r.child c
termination_by e.height
decreasing_by
  rename_i h
  obtain ⟨r, -, h⟩ := List.mem_flatMap.mp h
  obtain ⟨c, hc, h⟩ := List.mem_map.mp h
  cases h
  exact Entity.height_lt_of_mem_collection hc

/-- What a node shows of its write: the way, the type and the key it carries. -/
def nodeLabel (m : Operation × EntityType × Entity) : Operation × String × Option Int64 :=
  (m.1, m.2.1.name, u.keyOf m.2.1.name m.2.2.scalars)

/-- What an entry shows of the entity it was for. -/
def entryLabel (y : Entry) : Operation × String × Option Int64 :=
  (y.op, y.type, u.keyOf y.type y.sent)

variable {u} {op : Operation} {T : EntityType} {e : Entity}

lemma modes_eq (op : Operation) (T : EntityType) (e : Entity) : u.modes op T e =
    (op, T, e) :: (u.below T e).flatMap fun rc =>
      u.modes (u.modeBelow op rc.1.child rc.2) rc.1.child rc.2 := by
  rw [modes, List.flatMap_def, List.flatMap_def, List.attach_map_val
    (f := fun rc : Relation × Entity => u.modes (u.modeBelow op rc.1.child rc.2) rc.1.child rc.2)]

lemma modes_nodes (op : Operation) (T : EntityType) (e : Entity) :
    (u.modes op T e).map Prod.snd = u.nodes T e := by
  induction hn : e.height using Nat.strong_induction_on generalizing op T e with
  | _ n ih =>
    rw [modes_eq, nodes_eq, descendants, List.map_cons, List.map_flatMap]
    refine congrArg _ (List.flatMap_congr fun rc hrc => ?_)
    obtain ⟨-, hc⟩ := mem_below.mp hrc
    exact ih _ (hn ▸ Entity.height_lt_of_mem_collection hc) _ _ _ rfl

/-- What goes from an entity to its children as they are written holds of all. -/
lemma forall_modes {P : Operation → EntityType → Entity → Prop}
    (hstep : ∀ op T e, P op T e → ∀ rc ∈ u.below T e,
      P (u.modeBelow op rc.1.child rc.2) rc.1.child rc.2)
    (h : P op T e) : ∀ m ∈ u.modes op T e, P m.1 m.2.1 m.2.2 := by
  induction hn : e.height using Nat.strong_induction_on generalizing op T e with
  | _ n ih =>
    intro m hm
    rw [modes_eq, List.mem_cons, List.mem_flatMap] at hm
    rcases hm with rfl | ⟨rc, hrc, hm⟩
    · exact h
    · obtain ⟨-, hc⟩ := mem_below.mp hrc
      exact ih _ (hn ▸ Entity.height_lt_of_mem_collection hc) (hstep op T e h rc hrc) rfl m hm

lemma keyed_of_modeBelow {c : Entity} (h : u.modeBelow op T c = .update) : ¬u.Keyless T c := by
  intro hkeyless
  unfold modeBelow at h
  split at h
  · cases h
  · rename_i hnot
    exact hnot ⟨h, hkeyless⟩

/-- What is updated below another entity carries a key. -/
lemma keyed_of_mem_below : ∀ m ∈ (u.below T e).flatMap fun rc =>
    u.modes (u.modeBelow op rc.1.child rc.2) rc.1.child rc.2,
    m.1 = .update → ¬u.Keyless m.2.1 m.2.2 := by
  intro m hm
  obtain ⟨rc, -, hm⟩ := List.mem_flatMap.mp hm
  exact forall_modes (P := fun op T e => op = .update → ¬u.Keyless T e)
    (fun _ _ _ _ _ _ => keyed_of_modeBelow) keyed_of_modeBelow m hm

lemma ne_delete_of_modes (h : op ≠ .delete) : ∀ m ∈ u.modes op T e, m.1 ≠ .delete := by
  refine forall_modes (P := fun op _ _ => op ≠ .delete) ?_ h
  intro op T e hop rc _
  unfold modeBelow
  split
  · decide
  · exact hop

end Modes

section Cascades

variable {u : UnitOfWork} {Γ : Declarations} {op : Operation} {c c' : Entity} {r : Relation}
  {s : DataStore} {left : Record}

lemma Revisable.hasInteger (hu : u.Revisable Γ) {name : String} (hs : u.store? name = some s) :
    (Γ.of name).HasInteger s.adapter.schema.key ∧ s.adapter.schema.generated = true := by
  obtain ⟨hmem, rfl⟩ := store?_eq_some hs
  obtain ⟨t, ht⟩ := hu.generates s hmem
  exact ⟨ht.key, ht.generated⟩

lemma keyOf_eq {name : String} (hs : u.store? name = some s) (r : Record) :
    u.keyOf name r = r.integer? s.adapter.schema.key := by
  rw [keyOf, hs, Option.bind_some]

/-- What a child receives from its parent is not its key. -/
lemma Revisable.keyOf_received (hu : u.Revisable Γ) (hr : r ∈ u.relations)
    (hs : u.store? r.child.name = some s) (h : Receives op left r c c') :
    u.keyOf r.child.name c'.scalars = u.keyOf r.child.name c.scalars := by
  unfold Receives at h
  split at h
  · rw [h]
  · obtain ⟨v, -, h⟩ := h
    rw [(hu.declared.relations r hr).child] at h
    obtain ⟨_, hput, rfl⟩ := Declarations.assign_eq_ok h
    obtain ⟨_, _, -, -, rfl⟩ := Declaration.put_eq_ok hput
    rw [keyOf_eq hs, keyOf_eq hs]
    exact Record.integer?_put_of_ne (hu.fields r hr s hs).symm _ _

/-- A child is created rather than updated where it carried no key. -/
lemma Revisable.childOperation_eq (hu : u.Revisable Γ) (hr : r ∈ u.relations)
    (hs : u.store? r.child.name = some s) (hc' : Γ.Has r.child.name c')
    (hkey : u.keyOf r.child.name c'.scalars = u.keyOf r.child.name c.scalars) :
    u.childOperation op r c' = u.modeBelow op r.child c := by
  obtain ⟨hint, hgenerated⟩ := hu.hasInteger hs
  have hiff := Schema.isTransient_eq hgenerated hc'.scalars hint
  have htype : (Γ.of r.child.name).type = r.child := ((hu.declared.relations r hr).child).symm
  rw [htype, ← keyOf_eq hs, hkey] at hiff
  have hany : (u.store? r.child.name).any (·.adapter.schema.isTransient r.child c') = true ↔
      u.Keyless r.child c := by
    rw [hs]
    exact hiff
  simp only [childOperation, modeBelow, hany]

mutual

/-- The entries of a tree are those of its nodes, one by one, as they are written. -/
lemma Cascades.labels {op : Operation} {T : EntityType} {e e' : Entity} {t : Written}
    (h : u.Cascades op T e' t) (hu : u.Revisable Γ) (hop : op ≠ .delete) (he' : Γ.Has T.name e')
    (hchildren : e'.children = e.children)
    (hkey : u.keyOf T.name e'.scalars = u.keyOf T.name e.scalars) :
    t.entries.map u.entryLabel = (u.modes op T e).map u.nodeLabel := by
  match h with
  | .node store leaves below =>
    have hbelow := below.labels hu hop fun rc hrc => by
      obtain ⟨hr, hc⟩ := mem_below.mp hrc
      exact ⟨(mem_relationsOf.mp hr).1, hu.declared.has_child he' hr hc⟩
    rw [below_congr hchildren] at hbelow
    rw [Written.entries_node hop, modes_eq, List.map_cons, List.map_cons, hbelow, entryLabel,
      nodeLabel, hkey]

lemma CascadesAll.labels {op : Operation} {left : Record} {rcs : List (Relation × Entity)}
    {ts : List Written} (h : u.CascadesAll op left rcs ts) (hu : u.Revisable Γ) (hop : op ≠ .delete)
    (hrcs : ∀ rc ∈ rcs, rc.1 ∈ u.relations ∧ Γ.Has rc.1.child.name rc.2) :
    (Written.entriesAll ts).map u.entryLabel = (rcs.flatMap fun rc =>
      u.modes (u.modeBelow op rc.1.child rc.2) rc.1.child rc.2).map u.nodeLabel := by
  match h with
  | .nil => rfl
  | @CascadesAll.cons _ _ _ r c c' t rcs ts receives head tail =>
    obtain ⟨hr, hc⟩ := hrcs (r, c) (by simp)
    obtain ⟨s, hs⟩ : ∃ s, u.store? r.child.name = some s := by
      cases head with
      | node store _ _ => exact ⟨_, store⟩
    have hkey := hu.keyOf_received hr hs receives
    have hc' := receives.has (hu.declared.relations r hr) hc
    have hmode : u.childOperation op r c' = u.modeBelow op r.child c :=
      hu.childOperation_eq hr hs hc' hkey
    have hhead := head.labels hu (childOperation_ne_delete hop r c') hc' receives.children hkey
    have htail := tail.labels hu hop fun rc hrc => hrcs rc (by simp [hrc])
    rw [hmode] at hhead
    rw [Written.entriesAll, List.map_append, hhead, htail, List.flatMap_cons, List.map_append]

end

end Cascades

/-! ### The commit of an update -/

section Commit

variable {u : UnitOfWork} {Γ : Declarations} {T : EntityType} {e : Entity} {w w' : World}
  {c : Committed} {s : DataStore}

/-- The entity finds its row, those below it find theirs or carry no key, and no two of one type
carry the same. -/
structure Placed (u : UnitOfWork) (w : World) (T : EntityType) (e : Entity) : Prop where
  root : u.Stored w T e
  nodes : ∀ x ∈ u.descendants T e, u.Keyless x.1 x.2 ∨ u.Stored w x.1 x.2
  differ : (u.nodes T e).Pairwise fun x y => x.1.name = y.1.name → ¬u.Keyless x.1 x.2 →
    u.keyOf x.1.name x.2.scalars ≠ u.keyOf y.1.name y.2.scalars

lemma Placed.stored (h : u.Placed w T e) :
    ∀ m ∈ u.modes .update T e, m.1 = .update → u.Stored w m.2.1 m.2.2 := by
  intro m hm hop
  have hnode : m.2 ∈ u.nodes T e := by
    rw [← modes_nodes .update]
    exact List.mem_map_of_mem hm
  rw [modes_eq, List.mem_cons] at hm
  rw [nodes_eq, List.mem_cons] at hnode
  rcases hm with rfl | hm
  · exact h.root
  · rcases hnode with hroot | hbelow
    · rw [hroot]
      exact h.root
    · exact (h.nodes m.2 hbelow).resolve_left (keyed_of_mem_below m hm hop)

/-- Two nodes that are both updated have different keys: only the entity itself may carry none. -/
lemma Placed.updated_differ (h : u.Placed w T e) :
    (u.modes .update T e).Pairwise fun m n => m.1 = .update → n.1 = .update →
      m.2.1.name = n.2.1.name →
        u.keyOf m.2.1.name m.2.2.scalars ≠ u.keyOf n.2.1.name n.2.2.scalars := by
  have hdiffer := h.differ
  rw [← modes_nodes .update, List.pairwise_map, modes_eq, List.pairwise_cons] at hdiffer
  obtain ⟨hroot, hbelow⟩ := hdiffer
  rw [modes_eq, List.pairwise_cons]
  refine ⟨fun n hn _ hop hname heq => ?_, hbelow.imp_of_mem fun hm _ hne hop _ hname => ?_⟩
  · by_cases hkeyless : u.Keyless T e
    · refine keyed_of_mem_below n hn hop ?_
      unfold Keyless at hkeyless ⊢
      rwa [← heq]
    · exact hroot n hn hname hkeyless heq
  · exact hne hname (keyed_of_mem_below _ hm hop)

lemma Stored.mem_keys (h : u.Stored w T e) (hs : u.store? T.name = some s) :
    u.keyOf T.name e.scalars ∈ Table.keys s.adapter.schema.key (w.rows s.table) := by
  obtain ⟨s', hs', hmem⟩ := h
  obtain rfl : s = s' := Option.some.inj (hs.symm.trans hs')
  rwa [keyOf_eq hs]

lemma Stored.congr {w₁ : World} (h : w₁.rows = w.rows) (hs : u.Stored w T e) : u.Stored w₁ T e := by
  unfold Stored at hs ⊢
  rwa [h]

/-- A table is overlaid where the updates have distinct keys and find their rows. -/
lemma Revises.overlaid {ys : List Entry} {w₁ : World} (h : u.Revises Γ ys w w₁) (hs : s ∈ u.stores)
    (hfound : ∀ y ∈ s.entriesOf .update ys, y.sent.integer? s.adapter.schema.key ∈
      Table.keys s.adapter.schema.key (w.rows s.table))
    (hdiffer : (s.entriesOf .update ys).Pairwise fun y z =>
      y.sent.integer? s.adapter.schema.key ≠ z.sent.integer? s.adapter.schema.key) :
    s.Overlaid ys (w.rows s.table) (w₁.rows s.table) where
  eq := h.rows s hs
  updated y hy := by
    obtain ⟨row, hrow, hkey⟩ := List.mem_map.mp (hfound y hy)
    exact ⟨row, hrow, hkey, Table.reviseAll_eq (List.pairwise_map.mpr hdiffer)
      (List.mem_map_of_mem hy) hkey⟩
  kept row _ hnone := by
    refine Table.reviseAll_eq_self fun r hr => ?_
    obtain ⟨y, hy, rfl⟩ := List.mem_map.mp hr
    exact hnone y hy
  fresh := h.fresh s hs

section Labels

variable {ys : List Entry}
  (hlabels : ys.map u.entryLabel = (u.modes .update T e).map u.nodeLabel)
include hlabels

/-- Each update among entries of such labels finds its row. -/
lemma Placed.found (h : u.Placed w T e) (hnames : (u.stores.map (·.type.name)).Nodup)
    (hs : s ∈ u.stores) : ∀ y ∈ s.entriesOf .update ys, y.sent.integer? s.adapter.schema.key ∈
      Table.keys s.adapter.schema.key (w.rows s.table) := by
  intro y hy
  obtain ⟨hy, hop, htype⟩ := DataStore.mem_entriesOf.mp hy
  obtain ⟨m, hm, hlabel⟩ := List.mem_map.mp (hlabels ▸ List.mem_map_of_mem (f := u.entryLabel) hy)
  obtain ⟨hmop, hname, hkey⟩ : m.1 = y.op ∧ m.2.1.name = y.type ∧
      u.keyOf m.2.1.name m.2.2.scalars = u.keyOf y.type y.sent := by
    simpa [nodeLabel, entryLabel] using hlabel
  have hstore : u.store? s.type.name = some s := store?_of_mem hnames hs
  have hmem := (h.stored m hm (hmop.trans hop)).mem_keys (s := s) (by rw [hname, htype, hstore])
  rwa [hkey, htype, keyOf_eq hstore] at hmem

/-- And no two of them for one table find the same. -/
lemma Placed.entries_differ (h : u.Placed w T e) (hnames : (u.stores.map (·.type.name)).Nodup)
    (hs : s ∈ u.stores) : (s.entriesOf .update ys).Pairwise fun y z =>
      y.sent.integer? s.adapter.schema.key ≠ z.sent.integer? s.adapter.schema.key := by
  have hpairs : ((u.modes .update T e).map u.nodeLabel).Pairwise fun l l' =>
      l.1 = .update → l'.1 = .update → l.2.1 = l'.2.1 → l.2.2 ≠ l'.2.2 :=
    List.pairwise_map.mpr h.updated_differ
  rw [← hlabels, List.pairwise_map] at hpairs
  have hstore : u.store? s.type.name = some s := store?_of_mem hnames hs
  refine (hpairs.filter _).imp_of_mem fun hy hz hne => ?_
  obtain ⟨-, hyop, hytype⟩ := DataStore.mem_entriesOf.mp hy
  obtain ⟨-, hzop, hztype⟩ := DataStore.mem_entriesOf.mp hz
  have hne := hne hyop hzop (hytype.trans hztype.symm)
  rwa [entryLabel, entryLabel, hytype, hztype, keyOf_eq hstore, keyOf_eq hstore] at hne

lemma ne_delete_of_labels : ∀ y ∈ ys, y.op ≠ .delete := by
  intro y hy
  obtain ⟨m, hm, hlabel⟩ := List.mem_map.mp (hlabels ▸ List.mem_map_of_mem (f := u.entryLabel) hy)
  have hop : m.1 = y.op := congrArg Prod.fst hlabel
  exact hop ▸ ne_delete_of_modes (by decide) m hm

end Labels

/-- **What an update does to the tables.** Where an entity finds its row, and what hangs below it
carries no key or finds its own, the commit of its update writes each node as its place asks for:
over the row of its key, or as a new row if it carries no key or hangs below such a one. What is
stored in the joined field of a child is what the parent was left with. All other rows stay as they
were, in their places, and so do the tables of other stores. -/
theorem update_overlays (hu : u.Revisable Γ) (hw : u.WellKeyed Γ w)
    (hplan : u.plan = [(.update, T, e)]) (hp : u.Placed w T e)
    (h : u.commit.1 w = (.ok c, w')) :
    ∃ t, u.Cascades .update T e t ∧
      t.entries.map u.entryLabel = (u.modes .update T e).map u.nodeLabel ∧
      (∀ s ∈ u.stores, s.Overlaid t.entries (w.rows s.table) (w'.rows s.table)) ∧
      u.WellKeyed Γ w' ∧
      ∀ table, (∀ s ∈ u.stores, s.table ≠ table) → w'.rows table = w.rows table := by
  obtain ⟨tx, xs, w₁, w₂, forest, h₁, h₂, hxs, hproper, hforest, hentries⟩ :=
    hu.declared.commit_entries hu.once h
  have htyped : Γ.Has T.name e := hu.declared.has_plan (x := (.update, T, e)) (by simp [hplan])
  rw [hplan] at hforest
  cases hforest with | @cons _ t _ _ htree hrest
  cases hrest
  rw [Written.entriesAll, Written.entriesAll, List.append_nil] at hentries
  have hlabels := htree.labels hu (fun hop => nomatch hop) htyped rfl rfl
  have hw₁ : u.WellKeyed Γ w₁ := fun s hs => h₁ ▸ hw s hs
  have hp₁ : u.Placed w₁ T e :=
    ⟨hp.root.congr h₁, fun x hx => (hp.nodes x hx).imp_right (·.congr h₁), hp.differ⟩
  have hrevises := hu.revises hw₁ hxs hproper
    (fun x hx => ne_delete_of_labels hlabels x.entry (hentries ▸ List.mem_map_of_mem hx))
    fun x hx hop => hp₁.found hlabels hu.names (hproper x hx).store x.entry
      (DataStore.mem_entriesOf.mpr ⟨hentries ▸ List.mem_map_of_mem hx, hop, rfl⟩)
  rw [← hentries] at hrevises
  refine ⟨t, htree, hlabels, fun s hs => ?_, fun s hs => ?_, fun table ht => ?_⟩
  · have hoverlaid := hrevises.overlaid hs (hp₁.found hlabels hu.names hs)
      (hp₁.entries_differ hlabels hu.names hs)
    rwa [h₁, ← h₂] at hoverlaid
  · rw [h₂]
    exact hrevises.wellKeyed s hs
  · rw [h₂, hrevises.others table ht, h₁]

end Commit

end UnitOfWork

namespace Archive

/-- The archive with an update of a folder. -/
def updating (e : Entity) : UnitOfWork where
  stores := [⟨documentAdapter, []⟩, ⟨folderAdapter, [⟨.update, e⟩]⟩]
  relations := [subfolders, documents]

lemma updating_revisable {e : Entity} (he : types.Has "Folder" e) :
    (updating e).Revisable types where
  declared := by
    refine ⟨fun s hs => ?_, archive_relational.declared.relations⟩
    rcases List.mem_pair.mp hs with rfl | rfl
    · exact ⟨documentAdapter_generates.declared, by simp⟩
    · refine ⟨folderAdapter_generates.declared, fun q hq => ?_⟩
      rw [List.mem_singleton.mp hq]
      exact he
  names := archive_relational.names
  tables := archive_relational.tables
  generates s hs := by
    rcases List.mem_pair.mp hs with rfl | rfl
    · exact ⟨_, documentAdapter_generates⟩
    · exact ⟨_, folderAdapter_generates⟩
  once := archive_relational.once
  fields r hr s hs := by
    rcases List.mem_pair.mp hr with rfl | rfl
    · cases hs
      exact (by decide : subfolders.join.childField ≠ folderAdapter.schema.key)
    · cases hs
      exact (by decide : documents.join.childField ≠ documentAdapter.schema.key)

lemma updating_wellKeyed (e : Entity) : (updating e).WellKeyed types shelves := by
  intro s hs
  rcases List.mem_pair.mp hs with rfl | rfl
  · exact shelves_wellKeyed ⟨documentAdapter, [⟨.insert, document 0 7 "Letter"⟩]⟩ List.mem_cons_self
  · exact shelves_wellKeyed
      ⟨folderAdapter, [⟨.insert, music⟩, ⟨.insert, folder 3 none "empty" [] []⟩]⟩
      (List.mem_cons_of_mem _ List.mem_cons_self)

/-- A folder and a document of the shelves under new names, with a new document, and a new folder
into which a stored one was put. -/
def rearranged : Entity :=
  folder 1 none "everything" [folder 0 none "new" [folder 7 none "post" [] []] []]
    [document (-4) 0 "Answer", document 0 0 "Index"]

lemma rearranged_has : types.Has "Folder" rearranged := by
  refine folder_has (fun c hc => ?_) fun c hc => ?_
  · rw [List.mem_singleton.mp hc]
    refine folder_has (fun c hc => ?_) (by simp)
    rw [List.mem_singleton.mp hc]
    exact folder_has (by simp) (by simp)
  · rcases List.mem_pair.mp hc with rfl | rfl <;> exact document_has _ _ _

lemma rearranged_nodes : (updating rearranged).descendants folderType.type rearranged =
    [(folderType.type, folder 0 none "new" [folder 7 none "post" [] []] []),
      (folderType.type, folder 7 none "post" [] []),
      (documentType.type, document (-4) 0 "Answer"),
      (documentType.type, document 0 0 "Index")] := by
  cbv

lemma rearranged_modes : ((updating rearranged).modes .update folderType.type rearranged).map
    (updating rearranged).nodeLabel =
      [(.update, "Folder", some 1), (.insert, "Folder", some 0), (.insert, "Folder", some 7),
        (.update, "Document", some (-4)), (.insert, "Document", some 0)] := by
  cbv

lemma rearranged_placed : (updating rearranged).Placed shelves folderType.type rearranged where
  root := ⟨_, rfl, List.mem_cons_self⟩
  nodes x hx := by
    rw [rearranged_nodes] at hx
    simp only [List.mem_cons, List.not_mem_nil, or_false] at hx
    rcases hx with rfl | rfl | rfl | rfl
    · exact .inl (.inr rfl)
    · exact .inr ⟨_, rfl, List.mem_cons_of_mem _ List.mem_cons_self⟩
    · exact .inr ⟨_, rfl, List.mem_cons_self⟩
    · exact .inl (.inr rfl)
  differ := by
    rw [UnitOfWork.nodes_eq, rearranged_nodes]
    decide

/-- The rows of before, and after them those that were created. -/
def rearrangedFolders : List Entity :=
  [folder 1 none "everything" [] [], folder 7 (some 1) "letters" [] [],
    folder 8 (some 1) "new" [] [], folder 9 (some 8) "post" [] []]

def rearrangedDocuments : List Entity := [document (-4) 1 "Answer", document 1 1 "Index"]

lemma rearranged_commit : ((updating rearranged).commit.1 shelves).1.isOk ∧
    ((updating rearranged).commit.1 shelves).2.rows "folders" = rearrangedFolders ∧
    ((updating rearranged).commit.1 shelves).2.rows "documents" = rearrangedDocuments := by
  refine ⟨?_, ?_, ?_⟩
  · cbv
  · cbv
  · cbv

/-- What carries a key is stored over its row, but not the folder in a new one: that is created, and
its row is left alone. -/
theorem rearranged_overlaid : (updating rearranged).Placed shelves folderType.type rearranged ∧
    ∃ c w' t, (updating rearranged).commit.1 shelves = (.ok c, w') ∧
      (updating rearranged).Cascades .update folderType.type rearranged t ∧
      t.entries.map (updating rearranged).entryLabel =
        [(.update, "Folder", some 1), (.insert, "Folder", some 0), (.insert, "Folder", some 7),
          (.update, "Document", some (-4)), (.insert, "Document", some 0)] ∧
      (∀ s ∈ (updating rearranged).stores,
        s.Overlaid t.entries (shelves.rows s.table) (w'.rows s.table)) ∧
      w'.rows "folders" = rearrangedFolders ∧ w'.rows "documents" = rearrangedDocuments := by
  obtain ⟨hok, hfolders, hdocuments⟩ := rearranged_commit
  rcases h : (updating rearranged).commit.1 shelves with ⟨err | c, w'⟩
  · rw [h] at hok
    cases hok
  · rw [h] at hfolders hdocuments
    obtain ⟨t, htree, hlabels, hoverlaid, -, -⟩ := UnitOfWork.update_overlays
      (updating_revisable rearranged_has) (updating_wellKeyed rearranged) rfl rearranged_placed h
    exact ⟨rearranged_placed, c, w', t, rfl, htree, hlabels.trans rearranged_modes, hoverlaid,
      hfolders, hdocuments⟩

/-- A folder without a key under another name. -/
def nameless : Entity := folder 0 none "renamed" [] []

/-- Shelves with a folder whose key is zero. -/
def unnumbered : World where
  tables := [("folders", [folder 0 none "old" [] []]), ("documents", [])]
  backends := [(.memory "archive", .journal none)]

lemma unnumbered_wellKeyed : (updating nameless).WellKeyed types unnumbered := by
  intro s hs
  rcases List.mem_pair.mp hs with rfl | rfl
  · exact ⟨fun row hrow => absurd hrow List.not_mem_nil, by decide⟩
  · refine ⟨fun row hrow => ?_, by decide⟩
    rw [List.mem_singleton.mp hrow]
    exact folder_fits _ _ _ _ _

lemma nameless_placed : (updating nameless).Placed unnumbered folderType.type nameless where
  root := ⟨_, rfl, List.mem_cons_self⟩
  nodes x hx := by
    have hnone : (updating nameless).descendants folderType.type nameless = [] := by cbv
    rw [hnone] at hx
    cases hx
  differ := by
    have hone : (updating nameless).nodes folderType.type nameless =
      [(folderType.type, nameless)] := by cbv
    rw [hone]
    exact List.pairwise_singleton _ _

lemma nameless_commit : ((updating nameless).commit.1 unnumbered).1.isOk ∧
    ((updating nameless).commit.1 unnumbered).2.rows "folders" = [nameless] := by
  refine ⟨?_, ?_⟩
  · cbv
  · cbv

/-- The update of an entity without a key goes over the row without a key; no row is added. -/
theorem nameless_not_created : (updating nameless).Revisable types ∧
    (updating nameless).WellKeyed types unnumbered ∧
    (updating nameless).plan = [(.update, folderType.type, nameless)] ∧
    (updating nameless).Placed unnumbered folderType.type nameless ∧
    (updating nameless).Keyless folderType.type nameless ∧
    ∃ c w', (updating nameless).commit.1 unnumbered = (.ok c, w') ∧
      ∀ row, w'.rows "folders" ≠ unnumbered.rows "folders" ++ [row] := by
  obtain ⟨hok, hfolders⟩ := nameless_commit
  rcases h : (updating nameless).commit.1 unnumbered with ⟨err | c, w'⟩
  · rw [h] at hok
    cases hok
  · rw [h] at hfolders
    refine ⟨updating_revisable (folder_has (by simp) (by simp)), unnumbered_wellKeyed, rfl,
      nameless_placed, .inr rfl, c, w', rfl, fun row heq => ?_⟩
    have hlength : 1 = 2 := congrArg List.length (hfolders.symm.trans heq)
    exact absurd hlength (by decide)

end Archive

end EntityStore
