import EntityStore.Proofs.Forest
import EntityStore.Proofs.Run
import EntityStore.Proofs.Storing
import EntityStore.Proofs.WritePlan

/-!
How the tables grow when trees are inserted. Every entity of a tree adds its row at the end of its
table, parents before their children, under a key that was not there; nothing else is changed.
-/

namespace EntityStore

open Fallible

/-! ### Rows in the world -/

namespace World

/-- The number of rows in all tables. -/
def size (w : World) : Nat := (w.tables.flatMap (·.2)).length

lemma length_flatMap_put (n : Named (List Entity)) (name : String) (rows : List Entity) :
    ((n.put name rows).flatMap (·.2)).length + ((n.get? name).getD []).length =
      (n.flatMap (·.2)).length + rows.length := by
  induction n with
  | nil => simp [Keyed.put, Keyed.get?]
  | cons p n ih =>
    obtain ⟨other, rows'⟩ := p
    by_cases h : other = name
    · subst h
      simp [Keyed.put, Keyed.get?]
      omega
    · have hb : (name == other) = false := by simpa using Ne.symm h
      simp only [Keyed.get?] at ih
      simp only [Keyed.put, h, if_false, Keyed.get?, List.lookup_cons, hb, List.flatMap_cons,
        List.length_append]
      omega

/-- Adding rows to a table adds as many to all. -/
lemma size_append {w w' : World} {name : String} {rows : List Entity}
    (h : w'.tables = w.tables.put name (w.rows name ++ rows)) : w'.size = w.size + rows.length := by
  have hlen := length_flatMap_put w.tables name (w.rows name ++ rows)
  rw [← h, List.length_append] at hlen
  have hrows : (w.rows name).length = ((w.tables.get? name).getD []).length := rfl
  rw [size, size]
  omega

end World

namespace Adapter.Generates

variable {Γ : Declarations} {t : MemoryTable} {a : Adapter} {tx : Transaction} {e e' : Entity}
  {w w' : World}

lemma create_ok (ha : a.Generates Γ t)
    (hrows : ∀ row ∈ w.rows t.name, (Γ.of a.type.name).Fits row.scalars)
    (he : (Γ.of a.type.name).Fits e.scalars) (h : a.create tx e w = (.ok e', w')) :
    ∃ k, Table.Above (Table.keys a.schema.key (w.rows t.name)) k ∧
      e' = e.withInteger a.schema.key k ∧ (Γ.of a.type.name).Fits e'.scalars ∧
      w'.tables = w.tables.put t.name (w.rows t.name ++ [a.type.bare e']) := by
  have h : a.write tx .insert e w = (.ok e', w') := h
  have hT : a.type = (Γ.of a.type.name).type := ha.declared.type
  have hs : a.schema.IsOf (Γ.of a.type.name).type := hT ▸ ha.declared.schema
  have hcases := Table.create_cases hs ha.generated ha.key hrows he
  rw [← hT] at hcases
  rcases write_cases ha.storage tx .insert e w with ⟨err, w₁, hw, -⟩ | ⟨w₁, hw, htables⟩
  · rw [hw] at h
    cases h
  · rw [hw] at h
    obtain ⟨hresult, rfl⟩ := Prod.mk.inj h
    rw [Table.write] at hresult htables
    rcases hcases with ⟨k, habove, hfits, hcreate⟩ | ⟨err, hcreate, -⟩
    · rw [hcreate] at hresult htables
      cases hresult
      exact ⟨k, habove, rfl, hfits, htables⟩
    · rw [hcreate] at hresult
      cases hresult

end Adapter.Generates

namespace UnitOfWork

section Grew

variable (u : UnitOfWork) (Γ : Declarations)

/-- Every table has well-typed rows under distinct keys. -/
def WellKeyed (w : World) : Prop :=
  ∀ s ∈ u.stores, Table.WellKeyed (Γ.of s.type.name) s.adapter.schema.key (w.rows s.table)

/-- The tables have grown by the rows of some entities, in their order. -/
structure Grew (xs : List (EntityType × Entity)) (w w' : World) : Prop where
  rows : ∀ s ∈ u.stores, w'.rows s.table =
    w.rows s.table ++ (xs.filter (·.1.name = s.type.name)).map fun x => x.1.bare x.2
  wellKeyed : u.WellKeyed Γ w'
  size : w'.size = w.size + xs.length

end Grew

variable {u : UnitOfWork} {Γ : Declarations} {tx : Transaction} {T : EntityType}
  {e e' c c' : Entity} {r : Relation} {s : DataStore} {k : Int64} {p p' : Progress}

lemma Grew.nil {w : World} (hw : u.WellKeyed Γ w) : u.Grew Γ [] w w :=
  ⟨fun _ _ => by simp, hw, rfl⟩

lemma Grew.append {xs ys : List (EntityType × Entity)} {w₁ w₂ w₃ : World}
    (h : u.Grew Γ xs w₁ w₂) (h' : u.Grew Γ ys w₂ w₃) : u.Grew Γ (xs ++ ys) w₁ w₃ where
  rows s hs := by
    rw [h'.rows s hs, h.rows s hs, List.filter_append, List.map_append, List.append_assoc]
  wellKeyed := h'.wellKeyed
  size := by rw [h'.size, h.size, List.length_append, Nat.add_assoc]

/-- Tables alone matter. -/
lemma Grew.congr {xs : List (EntityType × Entity)} {w₁ w₂ w₁' w₂' : World}
    (h : u.Grew Γ xs w₁ w₂) (h₁ : w₁'.tables = w₁.tables) (h₂ : w₂'.tables = w₂.tables) :
    u.Grew Γ xs w₁' w₂' where
  rows s hs := by
    rw [World.rows_of_tables h₁, World.rows_of_tables h₂]
    exact h.rows s hs
  wellKeyed s hs := by
    rw [World.rows_of_tables h₂]
    exact h.wellKeyed s hs
  size := by
    rw [World.size, World.size, h₁, h₂]
    exact h.size

/-! ### One entity -/

/-- One more row, under a key above those of its table. -/
lemma Relational.grew_row (hu : u.Relational Γ) {w w' : World} (hw : u.WellKeyed Γ w)
    (hs : s ∈ u.stores) (hname : s.type.name = T.name) (he : (Γ.of T.name).Fits e.scalars)
    (hk : e.scalars.integer? s.adapter.schema.key = some k)
    (habove : Table.Above (Table.keys s.adapter.schema.key (w.rows s.table)) k)
    (htables : w'.tables = w.tables.put s.table (w.rows s.table ++ [T.bare e])) :
    u.Grew Γ [(T, e)] w w' := by
  have hrows : w'.rows = Function.update w.rows s.table (w.rows s.table ++ [T.bare e]) := by
    rw [← World.rows_withRows]
    exact World.rows_of_tables htables
  refine ⟨fun s' hs' => ?_, fun s' hs' => ?_, World.size_append htables⟩
  · by_cases heq : s' = s
    · subst heq
      simp [hrows, hname]
    · have hne : s'.type.name ≠ T.name := fun hn => heq (hu.eq_of_name hs' hs (hn.trans hname.symm))
      have hne' : s'.table ≠ s.table := fun hn => heq (hu.eq_of_table hs' hs hn)
      simp [hrows, hne', Ne.symm hne]
  · by_cases heq : s' = s
    · subst heq
      rw [hrows, Function.update_self]
      have hrow : (Γ.of s'.type.name).Fits (T.bare e).scalars := hname ▸ he
      exact (hw s' hs).append hrow hk habove
    · have hne : s'.table ≠ s.table := fun hn => heq (hu.eq_of_table hs' hs hn)
      rw [hrows, Function.update_of_ne hne]
      exact hw s' hs'

/-- A write of an entity adds its row. -/
lemma Relational.insert_ok (hu : u.Relational Γ) (hT : T = Γ.type T.name) {phase : Phase}
    (he : Γ.Has T.name e) (hw : u.WellKeyed Γ p.world)
    (h : u.write tx phase .insert T e p = (.ok e', p')) :
    ∃ s k, u.store? T.name = some s ∧ e' = e.withInteger s.adapter.schema.key k ∧
      Γ.Has T.name e' ∧ u.Grew Γ [(T, e')] p.world p'.world := by
  obtain ⟨s, hstore, hcreate, -⟩ := write_eq_ok h
  obtain ⟨hmem, hname⟩ := store?_eq_some hstore
  obtain ⟨t, ht⟩ := hu.generates s hmem
  have htable : s.table = t.name := by rw [DataStore.table, ht.storage]
  have hwell := hw s hmem
  rw [htable] at hwell
  have htype : s.adapter.type = T := (hu.declared.adapter hstore).2.trans hT.symm
  have hfits : (Γ.of s.adapter.type.name).Fits e.scalars := htype ▸ he.scalars
  obtain ⟨k, habove, rfl, hfits', htables⟩ := ht.create_ok hwell.fits hfits hcreate
  rw [htype] at hfits' htables
  rw [← htable] at habove htables
  have hkey : (e.withInteger s.adapter.schema.key k).scalars.integer? s.adapter.schema.key =
      some k :=
    Record.integer?_put_self ((hu.key hstore).mem_names he.scalars) k
  exact ⟨s, k, hstore, rfl, ⟨hfits', he.names, he.children⟩,
    hu.grew_row hw hmem hname hfits' hkey habove htables⟩

/-! ### One tree -/

/-- The entity was inserted with all that hangs below it. -/
structure Planted (u : UnitOfWork) (Γ : Declarations) (T : EntityType) (e e' : Entity)
    (w w' : World) : Prop where
  inserted : u.Inserted T e e'
  has : Γ.Has T.name e'
  grew : u.Grew Γ (u.nodes T e') w w'

/-- What hangs below an entity with the key was inserted, along some relations. -/
structure Filled (u : UnitOfWork) (Γ : Declarations) (T : EntityType) (rs : List Relation)
    (k : Int64) (e e' : Entity) (w w' : World) : Prop where
  scalars : e'.scalars = e.scalars
  names : e'.children.map Prod.fst = e.children.map Prod.fst
  others : ∀ other, other ∉ rs.map (·.navigation) → e'.collection other = e.collection other
  collections : ∀ r ∈ rs,
    List.Forall₂ (fun c c' => u.Inserted r.child (c.withInteger r.join.childField k) c')
      (e.collection r.navigation) (e'.collection r.navigation)
  has : Γ.Has T.name e'
  grew : u.Grew Γ (rs.flatMap fun r => (e'.collection r.navigation).flatMap (u.nodes r.child)) w w'

/-- What is written below entities of limited height is inserted. -/
def InsertsBelow (u : UnitOfWork) (Γ : Declarations) (levels : Nat)
    (below : Phase → EntityType → Entity → Committing Entity) : Prop :=
  ∀ T e e' s k p p', e.height ≤ levels → Γ.Has T.name e →
    u.store? T.name = some s → e.scalars.integer? s.adapter.schema.key = some k →
    u.WellKeyed Γ p.world → below .insert T e p = (.ok e', p') →
    u.Filled Γ T (u.relationsOf T) k e e' p.world p'.world

lemma Filled.nil (he : Γ.Has T.name e) {w : World} (hw : u.WellKeyed Γ w) :
    u.Filled Γ T [] k e e w w :=
  ⟨rfl, rfl, fun _ _ => rfl, by simp, he, .nil hw⟩

/-- Relations of distinct navigations do not get in the way of each other. -/
lemma Filled.cons {rs : List Relation} {e₁ : Entity} {w₁ w₂ w₃ : World}
    (h : u.Filled Γ T [r] k e e₁ w₁ w₂) (h' : u.Filled Γ T rs k e₁ e' w₂ w₃)
    (hr : r.navigation ∉ rs.map (·.navigation)) : u.Filled Γ T (r :: rs) k e e' w₁ w₃ where
  scalars := h'.scalars.trans h.scalars
  names := h'.names.trans h.names
  others other ho := by
    rw [List.map_cons, List.mem_cons, not_or] at ho
    exact (h'.others other ho.2).trans (h.others other (by simpa using ho.1))
  collections q hq := by
    rcases List.mem_cons.mp hq with rfl | hq
    · rw [h'.others _ hr]
      exact h.collections q (by simp)
    · have hne : q.navigation ∉ [r].map (·.navigation) := by
        rw [List.map_singleton, List.mem_singleton]
        intro heq
        exact hr (heq ▸ List.mem_map_of_mem hq)
      rw [← h.others _ hne]
      exact h'.collections q hq
  has := h'.has
  grew := by
    have hgrew := h.grew
    rw [List.flatMap_singleton, ← h'.others _ hr] at hgrew
    rw [List.flatMap_cons]
    exact hgrew.append h'.grew

section Below

variable {levels : Nat} {below : Phase → EntityType → Entity → Committing Entity}

lemma Relational.planted (hu : u.Relational Γ) (hb : u.InsertsBelow Γ levels below)
    (hT : T = Γ.type T.name) (hh : e.height ≤ levels) (he : Γ.Has T.name e)
    (hw : u.WellKeyed Γ p.world) {e₁ : Entity} {p₁ : Progress}
    (hi : u.write tx .insert .insert T e p = (.ok e₁, p₁))
    (h : below .insert T e₁ p₁ = (.ok e', p')) : u.Planted Γ T e e' p.world p'.world := by
  obtain ⟨s, k, hs, rfl, he₁, hgrew⟩ := hu.insert_ok hT he hw hi
  have hkey : (e.withInteger s.adapter.schema.key k).scalars.integer? s.adapter.schema.key =
      some k :=
    Record.integer?_put_self ((hu.key hs).mem_names he.scalars) k
  have hh₁ : (e.withInteger s.adapter.schema.key k).height ≤ levels := by
    rw [Entity.height_withInteger]
    exact hh
  have hfilled := hb T _ e' s k p₁ p' hh₁ he₁ hs hkey hgrew.wellKeyed h
  have hbare : T.bare (e.withInteger s.adapter.schema.key k) = T.bare e' := by
    rw [EntityType.bare, EntityType.bare, hfilled.scalars]
  have hroot : u.Grew Γ [(T, e')] p.world p₁.world := by
    refine ⟨fun s' hs' => ?_, hgrew.wellKeyed, hgrew.size⟩
    rw [hgrew.rows s' hs']
    by_cases hn : T.name = s'.type.name
    · simp [hn, hbare]
    · simp [hn]
  refine ⟨.mk hs hfilled.scalars hfilled.names (fun r hr => ?_) (fun r hr p hp => ?_),
    hfilled.has, ?_⟩
  · exact (hfilled.collections r hr).length_eq.symm
  · exact (List.forall₂_iff_zip.mp (hfilled.collections r hr)).2 hp
  · rw [nodes_eq, descendants_eq]
    exact hroot.append hfilled.grew

lemma Relational.planted_child (hu : u.Relational Γ) (hb : u.InsertsBelow Γ levels below)
    (hr : r ∈ u.relations) (hh : c.height ≤ levels) (hc : Γ.Has r.child.name c)
    (hw : u.WellKeyed Γ p.world) {l : Schema}
    (h : u.writeChild tx below .insert r l (.int k) c p = (.ok c', p')) :
    u.Planted Γ r.child (c.withInteger r.join.childField k) c' p.world p'.world := by
  obtain ⟨c₁, p₁, ha, h⟩ := bind_eq_ok.mp h
  obtain ⟨hassign, rfl⟩ := Committing.ofExcept_eq_ok ha
  have hT := (hu.declared.relations r hr).child
  rw [hT] at hassign
  have hc₁ := hc.assign hassign
  obtain rfl := Declaration.assign_integer (hu.integers r hr) hassign
  obtain ⟨c₂, p₂, hi, h⟩ := bind_eq_ok.mp h
  rw [← Entity.height_withInteger c r.join.childField k] at hh
  exact hu.planted hb hT hh hc₁ hw hi h

lemma Relational.mapM_planted (hu : u.Relational Γ) (hb : u.InsertsBelow Γ levels below)
    (hr : r ∈ u.relations) {cs cs' : List Entity} (hh : ∀ c ∈ cs, c.height ≤ levels)
    (hcs : ∀ c ∈ cs, Γ.Has r.child.name c) (hw : u.WellKeyed Γ p.world) {l : Schema}
    (h : cs.mapM (u.writeChild tx below .insert r l (.int k)) p = (.ok cs', p')) :
    List.Forall₂ (fun c c' => u.Inserted r.child (c.withInteger r.join.childField k) c') cs cs' ∧
      (∀ c ∈ cs', Γ.Has r.child.name c) ∧
      u.Grew Γ (cs'.flatMap (u.nodes r.child)) p.world p'.world := by
  induction cs generalizing p cs' with
  | nil =>
    cases h
    exact ⟨.nil, by simp, .nil hw⟩
  | cons c cs ih =>
    rw [List.mapM_cons] at h
    obtain ⟨c₁, p₁, hc, h⟩ := bind_eq_ok.mp h
    obtain ⟨cs₁, p₂, hcs₁, h⟩ := bind_eq_ok.mp h
    cases h
    have hplanted := hu.planted_child hb hr (hh c (by simp)) (hcs c (by simp)) hw hc
    obtain ⟨hins, hhas, hgrew⟩ := ih (fun x hx => hh x (by simp [hx]))
      (fun x hx => hcs x (by simp [hx])) hplanted.grew.wellKeyed hcs₁
    exact ⟨.cons hplanted.inserted hins, by simpa using ⟨hplanted.has, hhas⟩,
      hplanted.grew.append hgrew⟩

lemma Relational.writeChildren_filled (hu : u.Relational Γ) (hb : u.InsertsBelow Γ levels below)
    (hr : r ∈ u.relationsOf T) (hh : ∀ c ∈ e.collection r.navigation, c.height ≤ levels)
    (he : Γ.Has T.name e) (hs : u.store? T.name = some s)
    (hk : e.scalars.integer? s.adapter.schema.key = some k) (hw : u.WellKeyed Γ p.world)
    (h : u.writeChildren tx below .insert e r p = (.ok e', p')) :
    u.Filled Γ T [r] k e e' p.world p'.world := by
  obtain ⟨hmem, hname⟩ := mem_relationsOf.mp hr
  unfold writeChildren at h
  split at h
  · rename_i hempty
    cases h
    have hnil := List.isEmpty_iff.mp hempty
    refine ⟨rfl, rfl, fun _ _ => rfl, fun q hq => ?_, he, ?_⟩
    · rw [List.mem_singleton.mp hq, hnil]
      exact .nil
    · rw [List.flatMap_singleton, hnil]
      exact .nil hw
  · obtain ⟨v, p₁, hv, h⟩ := bind_eq_ok.mp h
    obtain ⟨hread, rfl⟩ := Committing.ofExcept_eq_ok hv
    obtain ⟨_, p₂, hstore, h⟩ := bind_eq_ok.mp h
    obtain ⟨-, rfl⟩ := Committing.ofExcept_eq_ok hstore
    obtain ⟨cs, p₃, hcs, h⟩ := bind_eq_ok.mp h
    cases h
    rw [hu.read_parent hr hs he.scalars hk, Except.ok.injEq] at hread
    subst hread
    obtain ⟨hins, hhas, hgrew⟩ :=
      hu.mapM_planted hb hmem hh (fun c hc => hu.declared.has_child he hr hc) hw hcs
    have hcoll := Entity.collection_withCollection_self (hu.declared.mem_names he hr) cs
    refine ⟨rfl, Entity.names_withCollection _ _ _, fun other ho => ?_, fun q hq => ?_, ?_, ?_⟩
    · exact Entity.collection_withCollection_of_ne e cs (by simpa using ho)
    · rw [List.mem_singleton.mp hq, hcoll]
      exact hins
    · exact he.withCollection (hname ▸ (hu.declared.relations r hmem).navigation) hhas
    · rw [List.flatMap_singleton, hcoll]
      exact hgrew

lemma Relational.foldlM_filled (hu : u.Relational Γ) (hb : u.InsertsBelow Γ levels below)
    {rs : List Relation} (hrs : ∀ r ∈ rs, r ∈ u.relationsOf T)
    (hd : (rs.map (·.navigation)).Nodup)
    (hh : ∀ r ∈ rs, ∀ c ∈ e.collection r.navigation, c.height ≤ levels) (he : Γ.Has T.name e)
    (hs : u.store? T.name = some s) (hk : e.scalars.integer? s.adapter.schema.key = some k)
    (hw : u.WellKeyed Γ p.world)
    (h : rs.foldlM (u.writeChildren tx below .insert) e p = (.ok e', p')) :
    u.Filled Γ T rs k e e' p.world p'.world := by
  induction rs generalizing e p with
  | nil =>
    cases h
    exact .nil he hw
  | cons r rs ih =>
    rw [List.foldlM_cons] at h
    obtain ⟨e₁, p₁, hr, h⟩ := bind_eq_ok.mp h
    rw [List.map_cons, List.nodup_cons] at hd
    have hfilled := hu.writeChildren_filled hb (hrs r (by simp)) (hh r (by simp)) he hs hk hw hr
    -- No later relation has the navigation of this one, so their collections are still what they
    -- were.
    have hh₁ : ∀ q ∈ rs, ∀ c ∈ e₁.collection q.navigation, c.height ≤ levels := by
      intro q hq c hc
      have hne : q.navigation ∉ [r].map (·.navigation) := by
        rw [List.map_singleton, List.mem_singleton]
        intro heq
        exact hd.1 (heq ▸ List.mem_map_of_mem hq)
      rw [hfilled.others _ hne] at hc
      exact hh q (by simp [hq]) c hc
    refine hfilled.cons (ih (fun q hq => hrs q (by simp [hq])) hd.2 hh₁ hfilled.has ?_ ?_ h) hd.1
    · rw [hfilled.scalars]
      exact hk
    · exact hfilled.grew.wellKeyed

end Below

/-- A cascade down to enough levels inserts all that hangs below an entity. -/
lemma Relational.insertsBelow_cascadeWithin (hu : u.Relational Γ) (levels : Nat) :
    u.InsertsBelow Γ levels (u.cascadeWithin tx levels) := by
  induction levels with
  | zero =>
    intro T e e' s k p p' hh he _ _ hw h
    cases h
    have hnone : ∀ navigation, e.collection navigation = [] := by
      refine fun navigation => List.eq_nil_iff_forall_not_mem.mpr fun c hc => ?_
      have := Entity.height_lt_of_mem_collection hc
      omega
    refine ⟨rfl, rfl, fun _ _ => rfl, fun r _ => ?_, he, ?_⟩
    · rw [hnone]
      exact .nil
    · have hnil : ((u.relationsOf T).flatMap fun r =>
          (e.collection r.navigation).flatMap (u.nodes r.child)) = [] :=
        List.flatMap_eq_nil_iff.mpr fun r _ => by rw [hnone, List.flatMap_nil]
      rw [hnil]
      exact .nil hw
  | succ levels ih =>
    intro T e e' s k p p' hh he hs hk hw h
    refine hu.foldlM_filled ih (fun _ hr => hr) (hu.once.nodup_relationsOf T) (fun r _ c hc => ?_)
      he hs hk hw h
    have := Entity.height_lt_of_mem_collection hc
    omega

lemma Relational.writeTree_planted (hu : u.Relational Γ) (hT : T = Γ.type T.name)
    (he : Γ.Has T.name e) (hw : u.WellKeyed Γ p.world)
    (h : u.writeTree tx .insert .insert T e p = (.ok e', p')) :
    u.Planted Γ T e e' p.world p'.world := by
  obtain ⟨e₁, p₁, hi, hc⟩ := bind_eq_ok.mp h
  obtain ⟨s, -, hleaves, -⟩ := write_ok hi
  rw [cascade, Entity.height_congr hleaves.children] at hc
  exact hu.planted (hu.insertsBelow_cascadeWithin e.height) hT (Nat.le_refl _) he hw hi hc

end UnitOfWork

end EntityStore
