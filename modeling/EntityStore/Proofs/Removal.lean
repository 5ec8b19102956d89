import EntityStore.Proofs.Ownership
import EntityStore.Proofs.Sequence

/-!
Deletions. Under distinct keys that equal themselves a deletion takes the one row of its key out of
its table, and so do many of them in a row. To delete entities with all that hangs below them never
fails over tables in memory.
-/

namespace EntityStore

open Fallible

/-! ### Keys that equal themselves -/

lemma Value.eq_of_same {v v' : Value} (hv : v.kind ≠ .float) (h : v.same v' = true) : v = v' := by
  cases v <;> cases v' <;> simp_all [same, kind]

lemma FieldKind.kind_ne_float {k : FieldKind} {v : Value} (h : k.Shows v)
    (hk : k.type.scalar ≠ .float) : v.kind ≠ .float := by
  obtain ⟨c, rfl⟩ := h
  induction k with
  | float => simp [type] at hk
  | optional k ih =>
    rcases c with _ | c
    · intro h
      cases h
    · exact ih hk c
  | _ =>
    intro h
    cases h

namespace Schema

variable {s : Schema} {d : Declaration} {e row : Entity}

/-- The row is under the key of the entity. -/
def under (s : Schema) (T : EntityType) (e row : Entity) : Bool :=
  match T.read? e s.key with
  | some v => Table.hasKey T s.key v row
  | none => false

lemma IsOf.read_key (hs : s.IsOf d.type) (he : d.Fits e.scalars) :
    ∃ k v, d.fields.lookup s.key = some k ∧ d.type.read? e s.key = some v ∧ k.Shows v := by
  have hmem := hs.fields.1
  rw [Declaration.type, List.map_map] at hmem
  exact he.lookup hmem

lemma KeyNotFloat.scalar_ne (hk : s.KeyNotFloat d.type) {k : FieldKind}
    (h : d.fields.lookup s.key = some k) : k.type.scalar ≠ .float :=
  hk ⟨s.key, k.type⟩ (List.mem_map_of_mem (mem_of_lookup _ _ h)) rfl

/-- Rows are under a key just if they have it. -/
lemma under_iff (hs : s.IsOf d.type) (hk : s.KeyNotFloat d.type) (he : d.Fits e.scalars)
    (hrow : d.Fits row.scalars) :
    s.under d.type e row = true ↔ d.type.read? row s.key = d.type.read? e s.key := by
  obtain ⟨k, v, hlookup, hv, hshow⟩ := hs.read_key he
  obtain ⟨k', v', hlookup', hv', hshow'⟩ := hs.read_key hrow
  simp only [under, hv, Table.hasKey, hv', Option.some.injEq]
  constructor
  · exact Value.eq_of_same (FieldKind.kind_ne_float hshow' (hk.scalar_ne hlookup'))
  · rintro rfl
    exact FieldKind.same_of_shows hshow' (hk.scalar_ne hlookup')

end Schema

/-! ### One table -/

namespace Table

variable {s : Schema} {d : Declaration} {T : EntityType} {e : Entity} {rows : List Entity}

/-- No two rows show the same in the key field. -/
def KeysDiffer (T : EntityType) (key : String) (rows : List Entity) : Prop :=
  rows.Pairwise fun a b => T.read? a key ≠ T.read? b key

/-- Integers under distinct keys are shown as different values. -/
lemma WellKeyed.keysDiffer {key : String} (h : WellKeyed d key rows) (hk : d.HasInteger key) :
    KeysDiffer d.type key rows := by
  refine (List.pairwise_map.mp h.distinct).imp_of_mem fun {a b} ha hb hne heq => hne ?_
  have hread : some (Value.ofInteger? (a.scalars.integer? key)) =
      some (Value.ofInteger? (b.scalars.integer? key)) := by
    rw [← (h.fits a ha).lookup_integer hk, ← (h.fits b hb).lookup_integer hk]
    exact heq
  generalize a.scalars.integer? key = i at hread ⊢
  generalize b.scalars.integer? key = j at hread ⊢
  rcases i with _ | i <;> rcases j with _ | j <;> cases hread <;> rfl

lemma delete_result {v : Value} (h : s.keyOf T e = .ok v) :
    (delete T s e rows).result = .ok () := by
  unfold delete
  rw [h]
  dsimp only
  split <;> rfl

/-- A deletion keeps the rows that are not under the key. -/
lemma delete_rows (hs : s.IsOf d.type) (hk : s.KeyNotFloat d.type)
    (hrows : ∀ row ∈ rows, d.Fits row.scalars) (hd : KeysDiffer d.type s.key rows)
    (he : d.Fits e.scalars) :
    (delete d.type s e rows).rows = rows.filter fun row => !s.under d.type e row := by
  obtain ⟨k, v, -, hv, -⟩ := hs.read_key he
  have hkey : s.keyOf d.type e = .ok v := by rw [Schema.keyOf, EntityType.read, hv]
  have hunder : ∀ row, s.under d.type e row = hasKey d.type s.key v row := by
    intro row
    rw [Schema.under, hv]
  unfold delete
  rw [hkey]
  dsimp only
  split
  · rename_i hfind
    refine (List.filter_eq_self.mpr fun row hrow => ?_).symm
    rw [hunder, find?_eq_none hfind row hrow]
    rfl
  · rename_i i row hfind
    obtain ⟨hrow, before, after, rfl, rfl, hbefore⟩ := find?_eq_some_append hfind
    have hafter : ∀ x ∈ after, s.under d.type e x = false := by
      intro x hx
      obtain ⟨-, hcons, -⟩ := List.pairwise_append.mp hd
      have hne := (List.pairwise_cons.mp hcons).1 x hx
      rw [← hunder, Schema.under_iff hs hk he (hrows row (by simp))] at hrow
      by_contra hunder
      rw [Bool.not_eq_false, Schema.under_iff hs hk he (hrows x (by simp [hx]))] at hunder
      exact hne (hrow.trans hunder.symm)
    have hkept : before.filter (fun row => !s.under d.type e row) = before :=
      List.filter_eq_self.mpr fun x hx => by rw [hunder, hbefore x hx]; rfl
    have hkept' : after.filter (fun row => !s.under d.type e row) = after :=
      List.filter_eq_self.mpr fun x hx => by rw [hafter x hx]; rfl
    rw [List.filter_append, List.filter_cons_of_neg (by rw [hunder, hrow]; simp), hkept, hkept']
    dsimp only
    rw [List.eraseIdx_append_of_length_le (Nat.le_refl _), Nat.sub_self, List.eraseIdx_cons_zero]

end Table

/-- Without a guard a deletion of a well-typed entity goes through. -/
lemma Adapter.delete_total {Γ : Declarations} {a : Adapter} (ha : a.Declared Γ)
    (hg : a.guard = none) {t : MemoryTable} (hm : a.storage = .memory t) {e : Entity}
    (he : (Γ.of a.type.name).Fits e.scalars) (tx : Transaction) (w : World) :
    ∃ w', a.write tx .delete e w = (.ok e, w') := by
  have hT : a.type = (Γ.of a.type.name).type := ha.type
  have hs : a.schema.IsOf (Γ.of a.type.name).type := hT ▸ ha.schema
  obtain ⟨k, v, -, hv, -⟩ := hs.read_key he
  have hkey : a.schema.keyOf a.type e = .ok v := by rw [Schema.keyOf, EntityType.read, hT, hv]
  have hannounce : ∃ w₁, a.announce .delete e w = (.ok (), w₁) := by
    rw [announce, hg]
    exact ⟨_, rfl⟩
  obtain ⟨w₁, hw₁⟩ := hannounce
  have hresult : (Table.write a.type a.schema .delete e (w₁.rows t.name)).result = .ok e := by
    rw [Table.write, Table.Outcome.giving, Table.delete_result hkey]
    rfl
  rw [write_memory hm, bind_of_ok hw₁]
  exact ⟨_, Prod.ext hresult rfl⟩

namespace UnitOfWork

variable {u : UnitOfWork} {Γ : Declarations} {tx : Transaction} {w w' : World}

/-! ### Deletions in a row -/

/-- In every table the keys differ, and equal themselves. -/
structure DistinctKeys (u : UnitOfWork) (w : World) : Prop where
  differ : ∀ s ∈ u.stores, Table.KeysDiffer s.type s.adapter.schema.key (w.rows s.table)
  notFloat : ∀ s ∈ u.stores, s.adapter.schema.KeyNotFloat s.type

/-- One of the writes was for an entity under whose key the row of a store is. -/
def hits (xs : List Attempt) (s : DataStore) (row : Entity) : Bool :=
  xs.any fun x => x.store.type.name = s.type.name && s.adapter.schema.under s.type x.entity row

/-- Deletions in a row take the rows out that they hit. -/
lemma Searchable.rows_of_deletions (hu : u.Searchable Γ) (hw : u.Typed Γ w) (hk : u.DistinctKeys w)
    {xs : List Attempt} (h : Attempts tx w xs w') (hsound : ∀ x ∈ xs, u.Proper Γ x)
    (hop : ∀ x ∈ xs, x.op = .delete) :
    (∀ s ∈ u.stores, w'.rows s.table = (w.rows s.table).filter fun row => !hits xs s row) ∧
      ∀ table, (∀ s ∈ u.stores, s.table ≠ table) → w'.rows table = w.rows table := by
  induction h with
  | nil => exact ⟨fun s _ => by simp [hits], fun _ _ => rfl⟩
  | @snoc xs w₁ w₂ s op e result init last ih =>
    obtain ⟨ihrows, ihothers⟩ := ih (fun x hx => hsound x (by simp [hx]))
      fun x hx => hop x (by simp [hx])
    have hlast : u.Proper Γ ⟨s, op, e, result⟩ := hsound _ (by simp)
    have hs : s ∈ u.stores := hlast.store
    have he : Γ.Has s.type.name e := hlast.has
    obtain ⟨e', rfl⟩ : ∃ e', result = .ok e' := hlast.result_eq
    obtain rfl : op = .delete := hop ⟨s, op, e, .ok e'⟩ (by simp)
    obtain ⟨t, ht⟩ := hu.memory s hs
    have htable : t.name = s.table := by simp [DataStore.table, ht]
    have hadapter := (hu.declared.stores s hs).adapter
    have hT : s.adapter.type = (Γ.of s.adapter.type.name).type := hadapter.type
    have hrows : ∀ row ∈ w₁.rows t.name, (Γ.of s.adapter.type.name).Fits row.scalars := by
      intro row hrow
      rw [htable, ihrows s hs] at hrow
      exact (hw s hs row (List.mem_of_mem_filter hrow)).scalars
    have hdiffer : Table.KeysDiffer s.adapter.type s.adapter.schema.key (w₁.rows t.name) := by
      rw [htable, ihrows s hs]
      exact (hk.differ s hs).sublist List.filter_sublist
    have hwritten : w₂.rows = Function.update w₁.rows s.table ((w₁.rows s.table).filter fun row =>
        !s.adapter.schema.under s.adapter.type e row) := by
      obtain ⟨-, hw₂⟩ := Adapter.write_eq_ok ht last
      have hschema := hadapter.schema
      have hkey : s.adapter.schema.KeyNotFloat s.adapter.type := hk.notFloat s hs
      rw [hT] at hschema hkey hdiffer
      have hdelete := Table.delete_rows hschema hkey hrows hdiffer he.scalars
      rw [← hT] at hdelete
      rw [hw₂, ← htable, ← hdelete]
      rfl
    refine ⟨fun s' hs' => ?_, fun table htables => ?_⟩
    · rw [hwritten]
      by_cases heq : s'.type.name = s.type.name
      · obtain rfl := List.inj_on_of_nodup_map hu.names hs' hs heq
        rw [Function.update_self, ihrows s' hs', List.filter_filter]
        refine List.filter_congr fun row _ => ?_
        simp [hits, DataStore.type, Bool.and_comm]
      · have hne : s'.table ≠ s.table :=
          fun h => heq (by rw [List.inj_on_of_nodup_map hu.tables hs' hs h])
        rw [Function.update_of_ne hne, ihrows s' hs']
        refine List.filter_congr fun row _ => ?_
        simp [hits, Ne.symm heq]
    · rw [hwritten, Function.update_of_ne (htables s hs).symm]
      exact ihothers table htables

/-! ### Deletions never fail -/

/-- No guard stands before a store. -/
def Unguarded (u : UnitOfWork) : Prop := ∀ s ∈ u.stores, s.adapter.guard = none

/-- A well-typed entity of a registered type. -/
structure Deletable (Γ : Declarations) (u : UnitOfWork) (T : EntityType) (e : Entity) : Prop where
  has : Γ.Has T.name e
  registered : (u.store? T.name).isSome

variable {phase : Phase} {T : EntityType} {e c : Entity} {r : Relation}

/-- A computation that goes through with a deletable entity, whatever the world. -/
def Succeeds (Γ : Declarations) (u : UnitOfWork) (T : EntityType) (x : Committing Entity) : Prop :=
  Triple (fun _ => True) x (fun e _ => True ∧ u.Deletable Γ T e) fun _ _ => False

lemma Searchable.succeeds_write (hu : u.Searchable Γ) (hg : u.Unguarded)
    (he : u.Deletable Γ T e) : u.Succeeds Γ T (u.write tx phase .delete T e) := by
  obtain ⟨s, hs⟩ := Option.isSome_iff_exists.mp he.registered
  obtain ⟨hmem, hname⟩ := store?_eq_some hs
  obtain ⟨t, ht⟩ := hu.memory s hmem
  have hstore : u.store T = .ok s := by rw [store, hs]
  have hfits : (Γ.of s.adapter.type.name).Fits e.scalars := by
    have hname : s.adapter.type.name = T.name := hname
    rw [hname]
    exact he.has.scalars
  intro p _
  obtain ⟨w', hw'⟩ := Adapter.delete_total (hu.declared.stores s hmem).adapter (hg s hmem) ht hfits
    tx p.world
  have hfirst : Committing.ofExcept T.name phase (u.store T) p = (.ok s, p) := by
    rw [Committing.ofExcept_apply, hstore]
    rfl
  rw [write, bind_of_ok hfirst, bind_of_ok (Committing.ofStep_of_ok hw')]
  exact ⟨trivial, he⟩

/-- What is written below deletable entities goes through. -/
def SucceedsBelow (Γ : Declarations) (u : UnitOfWork)
    (below : Phase → EntityType → Entity → Committing Entity) : Prop :=
  ∀ T e, u.Deletable Γ T e → u.Succeeds Γ T (below .delete T e)

lemma Searchable.succeeds_writeChildren (hu : u.Searchable Γ) (hg : u.Unguarded)
    {below : Phase → EntityType → Entity → Committing Entity} (hb : u.SucceedsBelow Γ below)
    (he : u.Deletable Γ T e) (hr : r ∈ u.relationsOf T) :
    u.Succeeds Γ T (u.writeChildren tx below .delete e r) := by
  obtain ⟨hmem, hname⟩ := mem_relationsOf.mp hr
  have hchild : ∀ c ∈ e.collection r.navigation, u.Deletable Γ r.child c :=
    fun c hc => ⟨hu.declared.has_child he.has hr hc, hu.children r hmem⟩
  unfold writeChildren
  dsimp only
  split
  · exact Triple.pure fun _ _ => ⟨trivial, he⟩
  · have hfits : (Γ.of r.parent.name).Fits e.scalars := by
      rw [hname]
      exact he.has.scalars
    obtain ⟨v, hv, -⟩ := (hu.comparable r hmem).reads (hu.declared.relations r hmem) hfits
    obtain ⟨s, hs⟩ := Option.isSome_iff_exists.mp (hu.children r hmem)
    have hread : r.parent.read e r.join.parentField = .ok v := by rw [EntityType.read, hv]
    have hstore : u.store r.child = .ok s := by rw [store, hs]
    have hall : Triple (fun _ => True) ((e.collection r.navigation).mapM
        (u.writeChild tx below .delete r s.adapter.schema v))
        (fun cs _ => True ∧ ∀ c ∈ cs, u.Deletable Γ r.child c) fun _ _ => False :=
      Triple.mapM_all fun c hc =>
        (hb _ _ (hchild c hc)).bind_of fun c' hc' => hu.succeeds_write hg hc'
    rw [hread, hstore]
    intro p hp
    rw [bind_of_ok (Committing.ofExcept_apply _ p), bind_of_ok (Committing.ofExcept_apply _ p)]
    refine hall.bind_of (fun cs hcs => Triple.pure fun _ _ => ⟨trivial, ?_, he.registered⟩) p hp
    exact he.has.withCollection (hu.declared.navigation hr) fun c hc => (hcs c hc).has

lemma Searchable.succeeds_cascadeWithin (hu : u.Searchable Γ) (hg : u.Unguarded) (levels : Nat) :
    u.SucceedsBelow Γ (u.cascadeWithin tx levels) := by
  induction levels with
  | zero => exact fun T e he => Triple.pure fun _ _ => ⟨trivial, he⟩
  | succ levels ih =>
    intro T e he
    exact Triple.foldlM (fun e' r hr he' => hu.succeeds_writeChildren hg ih he' hr) he

/-- The batch deletes entities of its type, and nothing else is in it. -/
def Deletes (Γ : Declarations) (u : UnitOfWork) (b : Batch) : Prop :=
  ∀ q ∈ b.pending, q.op = .delete ∧ u.Deletable Γ b.type q.entity

/-- Deletions with all that hangs below them go through. -/
lemma Searchable.applyAll_total (hu : u.Searchable Γ) (hg : u.Unguarded) {bs : List Batch}
    (hbs : ∀ b ∈ bs, u.Deletes Γ b) (p : Progress) :
    ∃ bs' p', u.applyAll tx bs p = (.ok bs', p') := by
  have hpending : ∀ step ∈ Phase.schedule, ∀ (b : Batch) q,
      q.op = .delete ∧ u.Deletable Γ b.type q.entity →
      Triple (fun _ => True)
        (if q.op = step.2 then do
          return { q with entity := ← u.writeTree tx step.1 step.2 b.type q.entity }
        else return q : Committing Pending)
        (fun q' _ => True ∧ (q'.op = .delete ∧ u.Deletable Γ b.type q'.entity))
        fun _ _ => False := by
    intro step hstep b q hq
    split
    · rename_i hop
      obtain rfl : step = (.delete, .delete) := by
        rw [hq.1] at hop
        simp only [Phase.schedule, List.mem_cons, List.not_mem_nil, or_false] at hstep
        rcases hstep with rfl | rfl | rfl
        · cases hop
        · cases hop
        · rfl
      have htree : u.Succeeds Γ b.type (u.writeTree tx .delete .delete b.type q.entity) :=
        (hu.succeeds_cascadeWithin hg _ _ _ hq.2).bind_of fun e' he' => hu.succeeds_write hg he'
      exact htree.bind_of fun e' he' => Triple.pure fun _ _ => ⟨trivial, hq.1, he'⟩
    · exact Triple.pure fun _ _ => ⟨trivial, hq⟩
  have hall : Triple (fun _ => True) (u.applyAll tx bs)
      (fun bs' _ => True ∧ ∀ b ∈ bs', u.Deletes Γ b) fun _ _ => False := by
    refine Triple.foldlM (fun bs' step hstep hbs' => Triple.mapM_all fun b hb => ?_) hbs
    exact (Triple.mapM_all fun q hq => hpending step hstep b q (hbs' b hb q hq)).bind_of
      fun qs hqs => Triple.pure fun _ _ => ⟨trivial, hqs⟩
  have h := hall p trivial
  rcases hr : u.applyAll tx bs p with ⟨halt | bs', p'⟩
  · rw [hr] at h
    exact h.elim
  · exact ⟨bs', p', rfl⟩

end UnitOfWork

end EntityStore
