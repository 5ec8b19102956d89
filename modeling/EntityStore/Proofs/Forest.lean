import EntityStore.Proofs.Keys
import EntityStore.Proofs.Participation
import EntityStore.Proofs.WriteTree
import Mathlib.Data.List.Flatten

/-!
Trees of entities under generated keys. An insert gives every entity of a tree a key and every child
the key of its parent; the fields that refer to other parents stay as they are. From the keys alone
it can then be told which entities of a forest are the children of which.
-/

namespace EntityStore

/-! ### Sublists -/

section Sublists

variable {α β : Type} {l l' : List α}

lemma sublist_flatMap_of_mem {f : α → List β} {a : α} (h : a ∈ l) :
    (f a).Sublist (l.flatMap f) :=
  List.sublist_flatten_of_mem (List.mem_map_of_mem h)

/-- A sublist is what a filter leaves, if it has all that the filter leaves. -/
lemma filter_eq_of_sublist {p : α → Bool} (hsub : l'.Sublist l) (hl : ∀ a ∈ l', p a = true)
    (hd : (l.filter p).Nodup) (hall : ∀ a ∈ l, p a = true → a ∈ l') : l.filter p = l' := by
  have hsub' : l'.Sublist (l.filter p) := by
    have h := hsub.filter p
    rwa [List.filter_eq_self.mpr hl] at h
  have hmem : l.filter p ⊆ l' := fun a ha =>
    hall a (List.mem_of_mem_filter ha) (List.of_mem_filter ha)
  exact (hsub'.eq_of_length_le (hd.length_le_of_subset hmem)).symm

end Sublists

namespace Entity

lemma lookup_eq_collection {e : Entity} {navigation : String}
    (h : navigation ∈ e.children.map Prod.fst) :
    e.children.lookup navigation = some (e.collection navigation) := by
  obtain ⟨cs, hcs⟩ := Option.isSome_iff_exists.mp ((lookup_isSome_iff _ _).mpr h)
  rw [collection, hcs]
  rfl

lemma height_withInteger (e : Entity) (field : String) (k : Int64) :
    (e.withInteger field k).height = e.height := height_congr rfl

end Entity

/-- The name of the table of a store. -/
def DataStore.table (s : DataStore) : String :=
  match s.adapter.storage with
  | .memory t => t.name
  | .sql t => t.name

/-- A search in a table in memory selects among its rows. -/
lemma DataStore.find_memory {s : DataStore} {t : MemoryTable} (hm : s.adapter.storage = .memory t)
    (p : Expr) (w : World) : s.find p w = (Table.select s.type p (w.rows s.table), w) := by
  have htable : t.name = s.table := by simp [DataStore.table, hm]
  simp only [DataStore.find, Adapter.read, hm, MemoryTable.read, htable]
  rfl

namespace UnitOfWork

variable (u : UnitOfWork)

/-! ### Nodes -/

/-- An entity and all that hang below it along mapped navigations, each with its type, in the order
in which they are inserted. -/
def nodes (T : EntityType) (e : Entity) : List (EntityType × Entity) :=
  (T, e) :: (u.below T e).attach.flatMap fun ⟨(r, c), _⟩ => nodes r.child c
termination_by e.height
decreasing_by
  rename_i h
  obtain ⟨r, -, h⟩ := List.mem_flatMap.mp h
  obtain ⟨c, hc, h⟩ := List.mem_map.mp h
  cases h
  exact Entity.height_lt_of_mem_collection hc

/-- All that hang below an entity. -/
def descendants (T : EntityType) (e : Entity) : List (EntityType × Entity) :=
  (u.below T e).flatMap fun rc => u.nodes rc.1.child rc.2

variable {u}

lemma nodes_eq (T : EntityType) (e : Entity) : u.nodes T e = (T, e) :: u.descendants T e := by
  rw [nodes, List.flatMap_def, descendants, List.flatMap_def,
    List.attach_map_val (f := fun rc : Relation × Entity => u.nodes rc.1.child rc.2)]

lemma descendants_eq (T : EntityType) (e : Entity) : u.descendants T e =
    (u.relationsOf T).flatMap fun r => (e.collection r.navigation).flatMap (u.nodes r.child) := by
  rw [descendants, below, List.flatMap_assoc]
  refine List.flatMap_congr fun r _ => ?_
  rw [List.flatMap_map]

lemma mem_nodes_self (T : EntityType) (e : Entity) : (T, e) ∈ u.nodes T e := by
  rw [nodes_eq]
  exact List.mem_cons_self

lemma mem_nodes {T : EntityType} {e : Entity} {x : EntityType × Entity} :
    x ∈ u.nodes T e ↔ x = (T, e) ∨ ∃ r ∈ u.relationsOf T, ∃ c ∈ e.collection r.navigation,
      x ∈ u.nodes r.child c := by
  rw [nodes_eq, List.mem_cons, descendants, List.mem_flatMap]
  refine or_congr_right ⟨?_, ?_⟩
  · rintro ⟨⟨r, c⟩, hrc, hx⟩
    obtain ⟨hr, hc⟩ := mem_below.mp hrc
    exact ⟨r, hr, c, hc, hx⟩
  · rintro ⟨r, hr, c, hc, hx⟩
    exact ⟨(r, c), mem_below.mpr ⟨hr, hc⟩, hx⟩

/-- The nodes of a child stand together among those of its parent. -/
lemma nodes_child_sublist {T : EntityType} {e c : Entity} {r : Relation} (hr : r ∈ u.relationsOf T)
    (hc : c ∈ e.collection r.navigation) : (u.nodes r.child c).Sublist (u.descendants T e) :=
  sublist_flatMap_of_mem (f := fun rc : Relation × Entity => u.nodes rc.1.child rc.2)
    (mem_below.mpr ⟨hr, hc⟩)

/-- The children under a relation are found among the nodes in their order. -/
lemma collection_sublist {T : EntityType} {e : Entity} {r : Relation} (hr : r ∈ u.relationsOf T) :
    ((e.collection r.navigation).map (r.child, ·)).Sublist (u.descendants T e) := by
  have hbelow : ((e.collection r.navigation).map (r, ·)).Sublist (u.below T e) :=
    sublist_flatMap_of_mem (f := fun r : Relation => (e.collection r.navigation).map (r, ·)) hr
  refine List.Sublist.trans ?_ (hbelow.flatMap _)
  rw [List.flatMap_map, List.map_eq_flatMap]
  exact List.Sublist.flatMap_right _ fun c _ =>
    List.singleton_sublist.mpr (mem_nodes_self r.child c)

/-! ### Inserted trees -/

/-- What an insert makes of an entity: it has a key, and so has every child, in whose field there is
the key of the parent. Other scalars, and the collections, are those that were buffered. -/
inductive Inserted (u : UnitOfWork) : EntityType → Entity → Entity → Prop
  | mk {T : EntityType} {e e' : Entity} {s : DataStore} {k : Int64}
    (store : u.store? T.name = some s)
    (scalars : e'.scalars = e.scalars.put s.adapter.schema.key (.int k))
    (names : e'.children.map Prod.fst = e.children.map Prod.fst)
    (lengths : ∀ r ∈ u.relationsOf T,
      (e'.collection r.navigation).length = (e.collection r.navigation).length)
    (children : ∀ r ∈ u.relationsOf T,
      ∀ p ∈ (e.collection r.navigation).zip (e'.collection r.navigation),
        Inserted u r.child (p.1.withInteger r.join.childField k) p.2) :
    Inserted u T e e'

variable (u)

/-- There is a row of the named type under the key. -/
def Stores (w : World) (name : String) (k : Int64) : Prop :=
  ∃ s, u.store? name = some s ∧ some k ∈ Table.keys s.adapter.schema.key (w.rows s.table)

/-- In each field that refers to a parent, except the one of a given name, the entity has a null or
the key of a stored parent; and so have those below it, except for the field of their own parent. -/
inductive Anchored (w : World) : Option String → EntityType → Entity → Prop
  | mk {own : Option String} {T : EntityType} {e : Entity}
    (fields : ∀ r ∈ u.relations, r.child.name = T.name → own ≠ some r.join.childField →
      ∀ j, e.scalars.integer? r.join.childField = some j → u.Stores w r.parent.name j)
    (children : ∀ r ∈ u.relationsOf T, ∀ c ∈ e.collection r.navigation,
      Anchored w (some r.join.childField) r.child c) :
    Anchored w own T e

/-- The entity has a key, its children refer to it, and it refers to no other parents but those that
were stored before; and so do those below it. -/
inductive Settled (w : World) : Option String → EntityType → Entity → Prop
  | mk {own : Option String} {T : EntityType} {e : Entity} {s : DataStore} {k : Int64}
    (store : u.store? T.name = some s) (key : e.scalars.integer? s.adapter.schema.key = some k)
    (fields : ∀ r ∈ u.relations, r.child.name = T.name → own ≠ some r.join.childField →
      ∀ j, e.scalars.integer? r.join.childField = some j → u.Stores w r.parent.name j)
    (refer : ∀ r ∈ u.relationsOf T, ∀ c ∈ e.collection r.navigation,
      c.scalars.integer? r.join.childField = some k)
    (children : ∀ r ∈ u.relationsOf T, ∀ c ∈ e.collection r.navigation,
      Settled w (some r.join.childField) r.child c) :
    Settled w own T e

/-- All entities are kept in tables in memory under generated keys, and every navigation is mapped
once, from the key of the parent to a field of the child that serves nothing else. -/
structure Relational (Γ : Declarations) : Prop where
  declared : u.Declared Γ
  names : (u.stores.map (·.type.name)).Nodup
  tables : (u.stores.map DataStore.table).Nodup
  generates : ∀ s ∈ u.stores, ∃ t, s.adapter.Generates Γ t
  mapped : ∀ s ∈ u.stores, ∀ n ∈ (Γ.of s.type.name).navigations,
    ∃ r ∈ u.relations, r.parent.name = s.type.name ∧ r.navigation = n.name
  once : u.MapsOnce
  parents : ∀ r ∈ u.relations, ∃ s, u.store? r.parent.name = some s ∧
    r.join.parentField = s.adapter.schema.key
  children : ∀ r ∈ u.relations, ∃ s, u.store? r.child.name = some s ∧
    r.join.childField ≠ s.adapter.schema.key
  integers : ∀ r ∈ u.relations, (Γ.of r.child.name).HasInteger r.join.childField
  fields : (u.relations.map fun r => (r.child.name, r.join.childField)).Nodup

variable {u} {Γ : Declarations} {w : World} {own : Option String} {T : EntityType}
  {e e' c c' : Entity} {r : Relation} {s s' : DataStore}

namespace Relational

/-- Stores are told apart by their types. -/
lemma eq_of_name (hu : u.Relational Γ) (hs : s ∈ u.stores) (hs' : s' ∈ u.stores)
    (h : s.type.name = s'.type.name) : s = s' :=
  List.inj_on_of_nodup_map hu.names hs hs' h

/-- Stores are told apart by their tables. -/
lemma eq_of_table (hu : u.Relational Γ) (hs : s ∈ u.stores) (hs' : s' ∈ u.stores)
    (h : s.table = s'.table) : s = s' :=
  List.inj_on_of_nodup_map hu.tables hs hs' h

lemma store?_eq (hu : u.Relational Γ) (hs : s ∈ u.stores) : u.store? s.type.name = some s :=
  store?_of_mem hu.names hs

lemma key (hu : u.Relational Γ) {name : String} (hs : u.store? name = some s) :
    (Γ.of name).HasInteger s.adapter.schema.key := by
  obtain ⟨hmem, rfl⟩ := store?_eq_some hs
  obtain ⟨t, ht⟩ := hu.generates s hmem
  exact ht.key

/-- The field that refers to a parent is not the key. -/
lemma childField_ne (hu : u.Relational Γ) (hr : r ∈ u.relations)
    (hs : u.store? r.child.name = some s) : r.join.childField ≠ s.adapter.schema.key := by
  obtain ⟨s', hs', hne⟩ := hu.children r hr
  obtain rfl : s = s' := Option.some.inj (hs.symm.trans hs')
  exact hne

/-- What a relation reads of a parent is its key. -/
lemma read_parent (hu : u.Relational Γ) (hr : r ∈ u.relationsOf T) (hs : u.store? T.name = some s)
    (he : (Γ.of T.name).Fits e.scalars) {k : Int64}
    (hk : e.scalars.integer? s.adapter.schema.key = some k) :
    r.parent.read e r.join.parentField = .ok (.int k) := by
  obtain ⟨hmem, hname⟩ := mem_relationsOf.mp hr
  obtain ⟨s', hs', hfield⟩ := hu.parents r hmem
  obtain rfl : s = s' := Option.some.inj (hs.symm.trans (hname ▸ hs'))
  have hread := he.read_integer (hu.key hs)
  rw [hk] at hread
  rw [(hu.declared.relations r hmem).parent, hname, hfield]
  exact hread

end Relational

lemma Anchored.withInteger {field : String} (h : u.Anchored w (some field) T e) (k : Int64) :
    u.Anchored w (some field) T (e.withInteger field k) := by
  obtain ⟨fields, children⟩ := h
  refine .mk (fun r hr hname hne j hj => fields r hr hname hne j ?_) children
  have hne : r.join.childField ≠ field := fun h => hne (congrArg some h.symm)
  rwa [Entity.withInteger, Record.integer?_put_of_ne hne] at hj

/-- A child that is inserted refers to its parent. -/
lemma Inserted.refers (hu : u.Relational Γ) (hr : r ∈ u.relations) {k : Int64}
    (h : u.Inserted r.child (c.withInteger r.join.childField k) c') (hc' : Γ.Has r.child.name c') :
    c'.scalars.integer? r.join.childField = some k := by
  cases h with
  | mk store scalars =>
    have hmem := (hu.integers r hr).mem_names hc'.scalars
    rw [scalars, Record.names_put, Entity.withInteger, Record.names_put] at hmem
    rw [scalars, Record.integer?_put_of_ne (hu.childField_ne hr store)]
    exact Record.integer?_put_self hmem k

lemma Inserted.settled (hu : u.Relational Γ) (h : u.Inserted T e e') (he' : Γ.Has T.name e')
    (ha : u.Anchored w own T e) : u.Settled w own T e' := by
  induction h generalizing own with
  | @mk T e e' s k store scalars names lengths children ih =>
    obtain ⟨fields, below⟩ := ha
    -- Every child of the inserted entity comes from one that was buffered.
    have hzip : ∀ r ∈ u.relationsOf T, ∀ c' ∈ e'.collection r.navigation,
        ∃ c ∈ e.collection r.navigation,
          (c, c') ∈ (e.collection r.navigation).zip (e'.collection r.navigation) := by
      intro r hr c' hc'
      rw [← List.map_snd_zip (Nat.le_of_eq (lengths r hr))] at hc'
      obtain ⟨⟨c, _⟩, hp, rfl⟩ := List.mem_map.mp hc'
      exact ⟨c, (List.of_mem_zip hp).1, hp⟩
    have hkey : e'.scalars.integer? s.adapter.schema.key = some k := by
      have hmem := (hu.key store).mem_names he'.scalars
      rw [scalars, Record.names_put] at hmem
      rw [scalars]
      exact Record.integer?_put_self hmem k
    refine .mk store hkey (fun r hr hname hne j hj => ?_) (fun r hr c' hc' => ?_)
      (fun r hr c' hc' => ?_)
    · rw [scalars, Record.integer?_put_of_ne (hu.childField_ne hr (hname ▸ store))] at hj
      exact fields r hr hname hne j hj
    · obtain ⟨c, -, hp⟩ := hzip r hr c' hc'
      exact (children r hr _ hp).refers hu (mem_relationsOf.mp hr).1
        (hu.declared.has_child he' hr hc')
    · obtain ⟨c, hc, hp⟩ := hzip r hr c' hc'
      exact ih r hr _ hp (hu.declared.has_child he' hr hc') ((below r hr c hc).withInteger k)

/-- A node hangs below another, or is the entity on top. -/
lemma Settled.of_mem_nodes (h : u.Settled w own T e) {x : EntityType × Entity}
    (hx : x ∈ u.nodes T e) : x = (T, e) ∨ ∃ y ∈ u.nodes T e, ∃ r ∈ u.relationsOf y.1,
      x.1 = r.child ∧ x.2 ∈ y.2.collection r.navigation ∧
      u.Settled w (some r.join.childField) x.1 x.2 := by
  induction h with
  | @mk own T e s k store key fields refer children ih =>
    rcases mem_nodes.mp hx with rfl | ⟨r, hr, c, hc, hxc⟩
    · exact .inl rfl
    · right
      rcases ih r hr c hc hxc with rfl | ⟨y, hy, q, hq, hxy⟩
      · exact ⟨(T, e), mem_nodes_self T e, r, hr, rfl, hc, children r hr c hc⟩
      · exact ⟨y, mem_nodes.mpr (.inr ⟨r, hr, c, hc, hy⟩), q, hq, hxy⟩

end UnitOfWork

end EntityStore
