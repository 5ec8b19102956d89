import EntityStore.Proofs.Growth
import EntityStore.UnitOfWork.Hydrate

/-!
Finding inserted trees again. Where tables have grown by a forest, the key of an entity tells it
from all rows, and the field that refers to it tells its children from all rows, in their order; so
a search by the key gives the tree back as it was inserted.
-/

namespace EntityStore

open Fallible

/-- The depth of a search leaves room for a tree of as many entities as there are rows. -/
lemma World.size_lt_depth (w : World) : w.size < w.depth := by
  have h : (w.size + 1) * 1 ≤ (w.size + 1) * (w.answersLeft + 1) :=
    Nat.mul_le_mul_left _ (by omega)
  have hdepth : w.depth = (w.size + 1) * (w.answersLeft + 1) + 1 := rfl
  omega

namespace UnitOfWork

variable {u : UnitOfWork} {Γ : Declarations} {roots : List (EntityType × Entity)} {w w' : World}
  {own : Option String} {T : EntityType} {e t : Entity} {x y : EntityType × Entity} {r : Relation}
  {s : DataStore} {k : Int64}

/-! ### Nodes of a forest -/

lemma nodes_sublist {T : EntityType} {e : Entity} {x : EntityType × Entity} (hx : x ∈ u.nodes T e) :
    (u.nodes x.1 x.2).Sublist (u.nodes T e) := by
  rcases mem_nodes.mp hx with rfl | ⟨r, hr, c, hc, hxc⟩
  · exact .refl _
  · refine (nodes_sublist hxc).trans ((nodes_child_sublist hr hc).trans ?_)
    rw [nodes_eq]
    exact List.sublist_cons_self _ _
termination_by e.height
decreasing_by exact Entity.height_lt_of_mem_collection hc

lemma Settled.has_of_mem_nodes (hu : u.Relational Γ) (h : u.Settled w own T e)
    (hT : T = Γ.type T.name) (he : Γ.Has T.name e) (hx : x ∈ u.nodes T e) :
    x.1 = Γ.type x.1.name ∧ Γ.Has x.1.name x.2 := by
  induction h with
  | @mk own T e s k store key fields refer children ih =>
    rcases mem_nodes.mp hx with rfl | ⟨r, hr, c, hc, hxc⟩
    · exact ⟨hT, he⟩
    · exact ih r hr c hc (hu.declared.relations r (mem_relationsOf.mp hr).1).child
        (hu.declared.has_child he hr hc) hxc

/-- The trees of a forest, node by node. -/
def forest (u : UnitOfWork) (roots : List (EntityType × Entity)) : List (EntityType × Entity) :=
  roots.flatMap fun x => u.nodes x.1 x.2

/-- In the tables every reference is to a stored parent. -/
def Sound (u : UnitOfWork) (w : World) : Prop :=
  ∀ r ∈ u.relations, ∀ s, u.store? r.child.name = some s → ∀ row ∈ w.rows s.table,
    ∀ j, row.scalars.integer? r.join.childField = some j → u.Stores w r.parent.name j

/-- Tables in which every reference was to a stored parent have grown by settled trees. -/
structure Grown (u : UnitOfWork) (Γ : Declarations) (roots : List (EntityType × Entity))
    (w w' : World) : Prop where
  grew : u.Grew Γ (u.forest roots) w w'
  sound : u.Sound w
  type : ∀ x ∈ roots, x.1 = Γ.type x.1.name
  has : ∀ x ∈ roots, Γ.Has x.1.name x.2
  settled : ∀ x ∈ roots, u.Settled w none x.1 x.2

namespace Grown

lemma nodes_sublist_forest (hx : x ∈ u.forest roots) :
    (u.nodes x.1 x.2).Sublist (u.forest roots) := by
  obtain ⟨z, hz, hxz⟩ := List.mem_flatMap.mp hx
  exact (nodes_sublist hxz).trans (sublist_flatMap_of_mem (f := fun x => u.nodes x.1 x.2) hz)

/-- A node is a root, or a child of another node. -/
lemma settled_node (h : u.Grown Γ roots w w') (hx : x ∈ u.forest roots) :
    u.Settled w none x.1 x.2 ∨ ∃ y ∈ u.forest roots, ∃ r ∈ u.relationsOf y.1,
      x.1 = r.child ∧ x.2 ∈ y.2.collection r.navigation ∧
      u.Settled w (some r.join.childField) x.1 x.2 := by
  obtain ⟨z, hz, hxz⟩ := List.mem_flatMap.mp hx
  rcases (h.settled z hz).of_mem_nodes hxz with rfl | ⟨y, hy, hxy⟩
  · exact .inl (h.settled _ hz)
  · exact .inr ⟨y, List.mem_flatMap.mpr ⟨z, hz, hy⟩, hxy⟩

lemma type_node (hu : u.Relational Γ) (h : u.Grown Γ roots w w') (hx : x ∈ u.forest roots) :
    x.1 = Γ.type x.1.name ∧ Γ.Has x.1.name x.2 := by
  obtain ⟨z, hz, hxz⟩ := List.mem_flatMap.mp hx
  exact (h.settled z hz).has_of_mem_nodes hu (h.type z hz) (h.has z hz) hxz

lemma exists_settled (h : u.Grown Γ roots w w') (hx : x ∈ u.forest roots) :
    ∃ own, u.Settled w own x.1 x.2 := by
  rcases h.settled_node hx with hs | ⟨y, -, r, -, -, -, hs⟩
  · exact ⟨_, hs⟩
  · exact ⟨_, hs⟩

/-- A node has a key, and its children refer to it. -/
lemma key_node (h : u.Grown Γ roots w w') (hx : x ∈ u.forest roots) :
    ∃ s k, u.store? x.1.name = some s ∧ x.2.scalars.integer? s.adapter.schema.key = some k ∧
      ∀ r ∈ u.relationsOf x.1, ∀ c ∈ x.2.collection r.navigation,
        c.scalars.integer? r.join.childField = some k := by
  obtain ⟨own, hs⟩ := h.exists_settled hx
  cases hs with
  | mk store key fields refer children => exact ⟨_, _, store, key, refer⟩

/-- The children of a node have its key in the field that refers to it. -/
lemma refers (h : u.Grown Γ roots w w') (hx : x ∈ u.forest roots)
    (hs : u.store? x.1.name = some s) (hk : x.2.scalars.integer? s.adapter.schema.key = some k)
    (hr : r ∈ u.relationsOf x.1) {c : Entity} (hc : c ∈ x.2.collection r.navigation) :
    c.scalars.integer? r.join.childField = some k := by
  obtain ⟨s', k', hs', hk', hrefer⟩ := h.key_node hx
  obtain rfl : s = s' := Option.some.inj (hs.symm.trans hs')
  obtain rfl : k = k' := Option.some.inj (hk.symm.trans hk')
  exact hrefer r hr c hc

/-- The keys in a table are those of before and those of the nodes, all distinct. -/
lemma nodup_keys (h : u.Grown Γ roots w w') (hs : s ∈ u.stores) :
    (Table.keys s.adapter.schema.key (w.rows s.table) ++
      ((u.forest roots).filter (·.1.name = s.type.name)).map fun x =>
        x.2.scalars.integer? s.adapter.schema.key).Nodup := by
  have hkeys := (h.grew.wellKeyed s hs).distinct
  rw [h.grew.rows s hs, Table.keys_append] at hkeys
  simp only [Table.keys, List.map_map] at hkeys ⊢
  exact hkeys

/-- The key of a node was no key before. -/
lemma fresh (h : u.Grown Γ roots w w') (hx : x ∈ u.forest roots)
    (hs : u.store? x.1.name = some s)
    (hk : x.2.scalars.integer? s.adapter.schema.key = some k) : ¬ u.Stores w x.1.name k := by
  rintro ⟨s', hs', hmem⟩
  obtain rfl : s = s' := Option.some.inj (hs.symm.trans hs')
  obtain ⟨hs, hname⟩ := store?_eq_some hs
  refine (List.nodup_append.mp (h.nodup_keys hs)).2.2 _ hmem _ ?_ hk.symm
  refine List.mem_map_of_mem (f := fun x : EntityType × Entity =>
    x.2.scalars.integer? s.adapter.schema.key) ?_
  exact List.mem_filter.mpr ⟨hx, by simp [hname]⟩

/-- Nodes of one type under one key are the same. -/
lemma eq_of_key (h : u.Grown Γ roots w w') (hx : x ∈ u.forest roots) (hy : y ∈ u.forest roots)
    (hs : u.store? x.1.name = some s) (hname : y.1.name = x.1.name)
    (hkey : y.2.scalars.integer? s.adapter.schema.key =
      x.2.scalars.integer? s.adapter.schema.key) : y = x := by
  obtain ⟨hs, hs'⟩ := store?_eq_some hs
  have hd := (List.nodup_append.mp (h.nodup_keys hs)).2.1
  refine List.inj_on_of_nodup_map hd ?_ ?_ hkey
  · exact List.mem_filter.mpr ⟨hy, by simp [hname, hs']⟩
  · exact List.mem_filter.mpr ⟨hx, by simp [hs']⟩

/-- What a search finds in a table are nodes, if it finds nothing of what was there before. -/
lemma filter_rows (h : u.Grown Γ roots w w') (hs : s ∈ u.stores) {p : Record → Bool}
    {l : List (EntityType × Entity)} (hbase : ∀ row ∈ w.rows s.table, ¬ p row.scalars)
    (hsub : l.Sublist (u.forest roots)) (hl : ∀ x ∈ l, x.1.name = s.type.name ∧ p x.2.scalars)
    (hall : ∀ x ∈ u.forest roots, x.1.name = s.type.name → p x.2.scalars → x ∈ l) :
    (w'.rows s.table).filter (fun row => p row.scalars) = l.map fun x => x.1.bare x.2 := by
  have hd := (List.nodup_append.mp (h.nodup_keys hs)).2.1.of_map
  have hnodes : ((u.forest roots).filter fun x => p x.2.scalars && x.1.name = s.type.name) = l := by
    refine filter_eq_of_sublist hsub (fun x hx => ?_) ?_ fun x hx hpx => ?_
    · obtain ⟨hname, hpx⟩ := hl x hx
      simp [hname, hpx]
    · rw [← List.filter_filter]
      exact hd.filter _
    · rw [Bool.and_eq_true, decide_eq_true_eq] at hpx
      exact hall x hx hpx.2 hpx.1
  rw [h.grew.rows s hs, List.filter_append, List.filter_eq_nil_iff.mpr hbase, List.nil_append,
    List.filter_map, ← hnodes, ← List.filter_filter]
  rfl

/-- A search by the key of a node finds its row alone. -/
lemma filter_key (h : u.Grown Γ roots w w') (hx : x ∈ u.forest roots)
    (hs : u.store? x.1.name = some s) (hk : x.2.scalars.integer? s.adapter.schema.key = some k) :
    (w'.rows s.table).filter (fun row => row.scalars.integer? s.adapter.schema.key = some k) =
      [x.1.bare x.2] := by
  obtain ⟨hmem, hname⟩ := store?_eq_some hs
  refine h.filter_rows hmem (p := fun r => r.integer? s.adapter.schema.key = some k) (l := [x])
    (fun row hrow hp => ?_) (List.singleton_sublist.mpr hx) (fun y hy => ?_) fun y hy hy' hp => ?_
  · refine h.fresh hx hs hk ⟨s, hs, ?_⟩
    exact Table.some_mem_keys.mpr ⟨row, hrow, of_decide_eq_true hp⟩
  · rw [List.mem_singleton.mp hy]
    exact ⟨hname.symm, decide_eq_true hk⟩
  · refine List.mem_singleton.mpr (h.eq_of_key hx hy hs (hy'.trans hname) ?_)
    rw [hk]
    exact of_decide_eq_true hp

/-- A node that refers to another one is a child of it. -/
lemma mem_collection (hu : u.Relational Γ) (h : u.Grown Γ roots w w') (hx : x ∈ u.forest roots)
    (hs : u.store? x.1.name = some s) (hk : x.2.scalars.integer? s.adapter.schema.key = some k)
    (hr : r ∈ u.relationsOf x.1) (hy : y ∈ u.forest roots) (hname : y.1.name = r.child.name)
    (hyk : y.2.scalars.integer? r.join.childField = some k) :
    y ∈ (x.2.collection r.navigation).map (r.child, ·) := by
  obtain ⟨hr, hparent⟩ := mem_relationsOf.mp hr
  -- As a reference to a stored parent the field would hold a key of before, and this one is new.
  have hown : ∀ {own}, u.Settled w own y.1 y.2 → own = some r.join.childField := by
    rintro own ⟨store, key, fields, refer, children⟩
    by_contra hne
    exact h.fresh hx hs hk (hparent ▸ fields r hr hname.symm hne k hyk)
  rcases h.settled_node hy with hsettled | ⟨z, hz, q, hq, htype, hmem, hsettled⟩
  · cases hown hsettled
  · obtain ⟨hq', hqparent⟩ := mem_relationsOf.mp hq
    have hfield := Option.some.inj (hown hsettled)
    obtain rfl : q = r := by
      refine List.inj_on_of_nodup_map hu.fields hq' hr ?_
      rw [hfield, ← htype, hname]
    have hzx : z.1.name = x.1.name := hqparent.symm.trans hparent
    obtain ⟨s', k', hs', hk', -⟩ := h.key_node hz
    obtain rfl : s = s' := Option.some.inj (hs.symm.trans (hzx ▸ hs'))
    rw [h.refers hz hs' hk' hq hmem] at hyk
    obtain rfl : z = x := h.eq_of_key hx hz hs hzx (by rw [hk', hk, hyk])
    exact List.mem_map.mpr ⟨y.2, hmem, by rw [← htype]⟩

/-- A search for what refers to a node finds its children under the relation, in their order. -/
lemma filter_children (hu : u.Relational Γ) (h : u.Grown Γ roots w w') (hx : x ∈ u.forest roots)
    {s' : DataStore} (hs : u.store? x.1.name = some s)
    (hk : x.2.scalars.integer? s.adapter.schema.key = some k) (hr : r ∈ u.relationsOf x.1)
    (hs' : u.store? r.child.name = some s') :
    (w'.rows s'.table).filter (fun row => row.scalars.integer? r.join.childField = some k) =
      (x.2.collection r.navigation).map r.child.bare := by
  obtain ⟨hmem, hname⟩ := store?_eq_some hs'
  obtain ⟨hr', hparent⟩ := mem_relationsOf.mp hr
  have hkids : ((x.2.collection r.navigation).map (r.child, ·)).Sublist (u.forest roots) := by
    refine (collection_sublist hr).trans (List.Sublist.trans ?_ (nodes_sublist_forest hx))
    rw [nodes_eq]
    exact List.sublist_cons_self _ _
  have hfilter := h.filter_rows hmem (p := fun row => row.integer? r.join.childField = some k)
    (fun row hrow hp => ?_) hkids (fun y hy => ?_) fun y hy hy' hp => ?_
  · rw [hfilter, List.map_map]
    rfl
  · exact h.fresh hx hs hk (hparent ▸ h.sound r hr' s' hs' row hrow k (of_decide_eq_true hp))
  · obtain ⟨c, hc, rfl⟩ := List.mem_map.mp hy
    exact ⟨hname.symm, decide_eq_true (h.refers hx hs hk hr hc)⟩
  · exact h.mem_collection hu hx hs hk hr hy (hy'.trans hname) (of_decide_eq_true hp)

end Grown

/-! ### Searches -/

namespace Relational

lemma find_integer (hu : u.Relational Γ) (hw : u.WellKeyed Γ w) (hs : s ∈ u.stores)
    {field : String} (hf : (Γ.of s.type.name).HasInteger field) (k : Int64) :
    s.find (.binary .eq (.field field) (.constant (.int k))) w =
      (.ok ((w.rows s.table).filter fun row => row.scalars.integer? field = some k), w) := by
  obtain ⟨t, ht⟩ := hu.generates s hs
  have hselect := Table.select_integer (hw s hs).fits hf k
  have hT : (Γ.of s.type.name).type = s.type := ht.declared.type.symm
  rw [hT] at hselect
  rw [DataStore.find_memory ht.storage, hselect]

lemma childrenOf_ok (hu : u.Relational Γ) (hw : u.WellKeyed Γ w) (hr : r ∈ u.relationsOf T)
    (hs : u.store? T.name = some s) (he : (Γ.of T.name).Fits e.scalars)
    (hk : e.scalars.integer? s.adapter.schema.key = some k) {s' : DataStore}
    (hs' : u.store? r.child.name = some s') :
    u.childrenOf r e w = (.ok ((w.rows s'.table).filter fun row =>
      row.scalars.integer? r.join.childField = some k), w) := by
  obtain ⟨hr', -⟩ := mem_relationsOf.mp hr
  obtain ⟨hmem, hname⟩ := store?_eq_some hs'
  have hf : (Γ.of s'.type.name).HasInteger r.join.childField := hname ▸ hu.integers r hr'
  have hstore : u.store r.child = .ok s' := by rw [store, hs']
  rw [childrenOf, Search.ofStep, adapt_apply, hu.read_parent hr hs he hk, hstore]
  have hfind := hu.find_integer hw hmem hf k
  have hjoin : r.join.predicate (.int k) =
    .binary .eq (.field r.join.childField) (.constant (.int k)) := rfl
  rw [bind_of_ok (ofExcept_apply _ w), bind_of_ok (ofExcept_apply _ w), hjoin, hfind]
  rfl

end Relational

/-! ### Filling in -/

/-- Take over the children that another entity has under a relation. -/
def fill (t e : Entity) (r : Relation) : Entity :=
  e.withCollection r.navigation (t.collection r.navigation)

lemma scalars_foldl_fill (t e : Entity) (rs : List Relation) :
    (rs.foldl (fill t) e).scalars = e.scalars := by
  induction rs generalizing e with
  | nil => rfl
  | cons r rs ih => exact ih _

lemma names_foldl_fill (t e : Entity) (rs : List Relation) :
    (rs.foldl (fill t) e).children.map Prod.fst = e.children.map Prod.fst := by
  induction rs generalizing e with
  | nil => rfl
  | cons r rs ih => exact (ih _).trans (Entity.names_withCollection _ _ _)

/-- What was taken over stays. -/
lemma collection_foldl_fill {t e : Entity} {rs : List Relation} {name : String}
    (h : name ∈ e.children.map Prod.fst)
    (hname : name ∈ rs.map (·.navigation) ∨ e.collection name = t.collection name) :
    (rs.foldl (fill t) e).collection name = t.collection name := by
  induction rs generalizing e with
  | nil => exact hname.resolve_left (by simp)
  | cons r rs ih =>
    have hmem : name ∈ (fill t e r).children.map Prod.fst := by
      rwa [fill, Entity.names_withCollection]
    refine ih hmem ?_
    by_cases hr : name = r.navigation
    · subst hr
      exact .inr (Entity.collection_withCollection_self h _)
    · have hsame : (fill t e r).collection name = e.collection name :=
        Entity.collection_withCollection_of_ne e _ hr
      rw [hsame]
      refine hname.imp_left fun hn => ?_
      rw [List.map_cons, List.mem_cons] at hn
      exact hn.resolve_left hr

/-- Where every navigation is mapped, an entity is its row with all its collections. -/
lemma Relational.foldl_fill (hu : u.Relational Γ) (hs : u.store? T.name = some s)
    (hT : T = Γ.type T.name) (ht : Γ.Has T.name t) :
    (u.relationsOf T).foldl (fill t) (T.bare t) = t := by
  obtain ⟨hmem, hname⟩ := store?_eq_some hs
  have hfresh : (T.bare t).children.map Prod.fst =
      (Γ.of T.name).navigations.map Navigation.name := by
    rw [EntityType.bare, hT]
    simp [EntityType.fresh, Declarations.type, Declaration.type, Γ.name_of]
  have hnames : t.children.map Prod.fst = (T.bare t).children.map Prod.fst :=
    ht.names.trans hfresh.symm
  have hd : (t.children.map Prod.fst).Nodup := by
    rw [ht.names]
    exact (List.nodup_append.mp (Γ.of T.name).distinct).2.1
  have hscalars : ((u.relationsOf T).foldl (fill t) (T.bare t)).scalars = t.scalars :=
    scalars_foldl_fill _ _ _
  have hchildren : t.children = ((u.relationsOf T).foldl (fill t) (T.bare t)).children := by
    refine eq_of_lookup_eq hd ((names_foldl_fill _ _ _).trans hnames.symm) fun name hn => ?_
    have hn' : name ∈ (T.bare t).children.map Prod.fst := hnames ▸ hn
    have hmapped : name ∈ (u.relationsOf T).map (·.navigation) := by
      rw [hfresh] at hn'
      obtain ⟨n, hnav, rfl⟩ := List.mem_map.mp hn'
      obtain ⟨r, hr, hparent, hnav⟩ := hu.mapped s hmem n (hname ▸ hnav)
      exact List.mem_map.mpr ⟨r, mem_relationsOf.mpr ⟨hr, hparent.trans hname⟩, hnav⟩
    have hfilled : name ∈ ((u.relationsOf T).foldl (fill t) (T.bare t)).children.map Prod.fst := by
      rwa [names_foldl_fill]
    rw [Entity.lookup_eq_collection hn, Entity.lookup_eq_collection hfilled,
      collection_foldl_fill hn' (.inl hmapped)]
  rcases hfold : (u.relationsOf T).foldl (fill t) (T.bare t) with ⟨scalars, children⟩
  rw [hfold] at hscalars hchildren
  obtain ⟨_, _⟩ := t
  cases hscalars
  cases hchildren
  rfl

namespace Grown

/-- Whatever the children are filled into, a round of the search finds them and what hangs below. -/
lemma foldlM_hydrate (hu : u.Relational Γ) (h : u.Grown Γ roots w w') {depth : Nat}
    {ts : List Entity} (hts : ∀ t ∈ ts, (T, t) ∈ u.forest roots)
    (hbelow : ∀ t ∈ ts, ∀ r ∈ u.relationsOf T,
      u.hydrate depth r.child ((t.collection r.navigation).map r.child.bare) w' =
        (.ok (t.collection r.navigation), w'))
    {rs : List Relation} (hrs : ∀ r ∈ rs, r ∈ u.relationsOf T) {f : Entity → Entity}
    (hf : ∀ t, (f t).scalars = t.scalars) :
    (rs.foldlM (fun es r => es.mapM fun e => do
        let children ← u.childrenOf r e
        let children ← u.hydrate depth r.child children
        return e.withCollection r.navigation children) (ts.map f) : Search (List Entity)) w' =
      (.ok (ts.map fun t => rs.foldl (fill t) (f t)), w') := by
  induction rs generalizing f with
  | nil => rfl
  | cons r rs ih =>
    have hround : ((ts.map f).mapM fun e => do
          let children ← u.childrenOf r e
          let children ← u.hydrate depth r.child children
          return e.withCollection r.navigation children : Search (List Entity)) w' =
        (.ok (ts.map fun t => fill t (f t) r), w') := by
      rw [List.mapM_map]
      refine mapM_of_ok fun t ht => ?_
      have hx := hts t ht
      have hr := hrs r (by simp)
      obtain ⟨s, k, hs, hk, -⟩ := h.key_node hx
      obtain ⟨s', hs', -⟩ := hu.children r (mem_relationsOf.mp hr).1
      have hfits := (h.type_node hu hx).2.scalars
      have hchildren := hu.childrenOf_ok h.grew.wellKeyed hr hs (hf t ▸ hfits) (hf t ▸ hk) hs'
      rw [h.filter_children hu hx hs hk hr hs'] at hchildren
      exact (bind_of_ok hchildren).trans (bind_of_ok (hbelow t ht r hr))
    rw [List.foldlM_cons, bind_of_ok hround]
    exact ih (fun q hq => hrs q (by simp [hq])) fun t => hf t

/-- Filling in the rows of nodes gives back the nodes. -/
lemma hydrate_ok (hu : u.Relational Γ) (h : u.Grown Γ roots w w') (depth : Nat)
    {ts : List Entity} (hts : ∀ t ∈ ts, (T, t) ∈ u.forest roots)
    (hdepth : ∀ t ∈ ts, (u.nodes T t).length ≤ depth) :
    u.hydrate depth T (ts.map T.bare) w' = (.ok ts, w') := by
  induction depth generalizing T ts with
  | zero =>
    have hnil : ts = [] := by
      refine List.eq_nil_iff_forall_not_mem.mpr fun t ht => ?_
      have := hdepth t ht
      rw [nodes_eq] at this
      simp at this
    subst hnil
    rfl
  | succ depth ih =>
    have hbelow : ∀ t ∈ ts, ∀ r ∈ u.relationsOf T,
        u.hydrate depth r.child ((t.collection r.navigation).map r.child.bare) w' =
          (.ok (t.collection r.navigation), w') := by
      intro t ht r hr
      refine ih (fun c hc => ?_) fun c hc => ?_
      · refine (nodes_sublist_forest (hts t ht)).subset ?_
        exact mem_nodes.mpr (.inr ⟨r, hr, c, hc, mem_nodes_self r.child c⟩)
      · have hlen := (nodes_child_sublist hr hc).length_le
        have hdepth := hdepth t ht
        rw [nodes_eq, List.length_cons] at hdepth
        omega
    rw [hydrate, h.foldlM_hydrate hu hts hbelow (fun _ hr => hr) (f := T.bare) fun _ => rfl]
    have hfilled : (ts.map fun t => (u.relationsOf T).foldl (fill t) (T.bare t)) = ts := by
      refine (List.map_congr_left fun t ht => ?_).trans (List.map_id ts)
      obtain ⟨s, k, hs, -, -⟩ := h.key_node (hts t ht)
      obtain ⟨hT, hhas⟩ := h.type_node hu (hts t ht)
      exact hu.foldl_fill hs hT hhas
    rw [hfilled]

end Grown

end UnitOfWork

end EntityStore
