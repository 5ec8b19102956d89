import EntityStore.Proofs.Deletion
import EntityStore.Proofs.Hydration

/-!
Deleting what was found. A search fills the entities it finds with all that is reached from them,
and a deletion goes down the same relations: so it takes these rows out of their tables and no
others, however often they are reached.
-/

namespace EntityStore

open Fallible

namespace UnitOfWork

/-! ### Buffering -/

section Restocked

variable {u : UnitOfWork} {Γ : Declarations} {w : World} {f : DataStore → DataStore}

/-- The unit of work with something else in the buffers. -/
def restock (u : UnitOfWork) (f : DataStore → DataStore) : UnitOfWork :=
  { u with stores := u.stores.map f }

/-- Buffers alone are changed. -/
def Rebuffers (f : DataStore → DataStore) : Prop := ∀ s, (f s).adapter = s.adapter

lemma Rebuffers.type (hf : Rebuffers f) (s : DataStore) : (f s).type = s.type :=
  congrArg Adapter.type (hf s)

lemma Rebuffers.table (hf : Rebuffers f) (s : DataStore) : (f s).table = s.table := by
  rw [DataStore.table, DataStore.table, hf s]

lemma store?_restock (hf : Rebuffers f) (name : String) :
    (u.restock f).store? name = (u.store? name).map f := by
  rw [store?, restock, List.find?_map]
  congr 2
  funext s
  rw [Function.comp_apply, hf.type]

lemma names_restock (hf : Rebuffers f) (h : (u.stores.map (·.type.name)).Nodup) :
    ((u.restock f).stores.map (·.type.name)).Nodup := by
  rw [restock, List.map_map]
  simpa only [Function.comp_def, hf.type] using h

lemma Searchable.restock (hu : u.Searchable Γ) (hf : Rebuffers f)
    (hp : ∀ s ∈ u.stores, ∀ q ∈ (f s).pending, Γ.Has s.type.name q.entity) :
    (u.restock f).Searchable Γ where
  declared := by
    refine ⟨fun t ht => ?_, hu.declared.relations⟩
    obtain ⟨s, hs, rfl⟩ := List.mem_map.mp ht
    refine ⟨by rw [hf]; exact (hu.declared.stores s hs).adapter, ?_⟩
    rw [hf.type]
    exact hp s hs
  names := names_restock hf hu.names
  tables := by
    have htables := hu.tables
    rw [UnitOfWork.restock, List.map_map]
    simpa only [Function.comp_def, hf.table] using htables
  memory t ht := by
    obtain ⟨s, hs, rfl⟩ := List.mem_map.mp ht
    rw [hf]
    exact hu.memory s hs
  children r hr := by
    rw [store?_restock hf, Option.isSome_map]
    exact hu.children r hr
  once := hu.once
  comparable := hu.comparable

lemma Typed.restock (hw : u.Typed Γ w) (hf : Rebuffers f) : (u.restock f).Typed Γ w := by
  intro t ht
  obtain ⟨s, hs, rfl⟩ := List.mem_map.mp ht
  rw [hf.table, hf.type]
  exact hw s hs

lemma DistinctKeys.restock (hk : u.DistinctKeys w) (hf : Rebuffers f) :
    (u.restock f).DistinctKeys w where
  differ t ht := by
    obtain ⟨s, hs, rfl⟩ := List.mem_map.mp ht
    rw [hf.table, hf.type, hf]
    exact hk.differ s hs
  notFloat t ht := by
    obtain ⟨s, hs, rfl⟩ := List.mem_map.mp ht
    rw [hf.type, hf]
    exact hk.notFloat s hs

lemma Unguarded.restock (hg : u.Unguarded) (hf : Rebuffers f) : (u.restock f).Unguarded := by
  intro t ht
  obtain ⟨s, hs, rfl⟩ := List.mem_map.mp ht
  rw [hf]
  exact hg s hs

lemma Ready.restock {types : List String} (h : u.Ready w types) (hf : Rebuffers f) :
    (u.restock f).Ready w types := by
  have hreached : (u.restock f).newlyReached = u.newlyReached := by
    funext listed T
    simp only [newlyReached, store?_restock hf, Option.isSome_map]
    rfl
  have hparticipants : (u.restock f).participants types = u.participants types := by
    have hfrom : (u.restock f).reachFrom = u.reachFrom := by
      funext listed place
      rw [reachFrom, reachFrom, hreached]
    rw [participants, participants, hfrom, UnitOfWork.restock, List.length_map]
  have hshared : (u.restock f).sharedBackend = u.sharedBackend := by
    funext types
    have hmap : (types.map fun T => ((u.restock f).store? T).bind (·.adapter.backend)) =
        types.map fun T => (u.store? T).bind (·.adapter.backend) := by
      refine List.map_congr_left fun T _ => ?_
      rw [store?_restock hf, Option.bind_map]
      congr 1
      funext s
      rw [Function.comp_apply, hf]
    rw [sharedBackend, sharedBackend, hmap]
  rw [Ready, hparticipants, hshared]
  exact h

lemma nodes_restock (f : DataStore → DataStore) (T : EntityType) (e : Entity) :
    (u.restock f).nodes T e = u.nodes T e := by
  induction hn : e.height using Nat.strong_induction_on generalizing T e with
  | _ n ih =>
    rw [nodes_eq, nodes_eq, descendants_eq, descendants_eq]
    have hrelations : (u.restock f).relationsOf T = u.relationsOf T := rfl
    rw [hrelations]
    refine congrArg _ (List.flatMap_congr fun r _ => List.flatMap_congr fun c hc => ?_)
    exact ih _ (hn ▸ Entity.height_lt_of_mem_collection hc) r.child c rfl

/-- The entities are added to the buffer of a type. -/
def holding (op : Operation) (T : EntityType) (es : List Entity) (s : DataStore) : DataStore :=
  if s.type.name = T.name then { s with pending := s.pending ++ es.map (Pending.mk op) } else s

lemma rebuffers_holding (op : Operation) (T : EntityType) (es : List Entity) :
    Rebuffers (holding op T es) := by
  intro s
  unfold holding
  split <;> rfl

/-- Entities of a registered type are buffered one after another. -/
lemma foldlM_buffer {T : EntityType} (h : (u.store? T.name).isSome) (op : Operation)
    (es : List Entity) :
    es.foldlM (fun u e => u.buffer op T e) u = .ok (u.restock (holding op T es)) := by
  induction es generalizing u with
  | nil =>
    have hsame : u.restock (holding op T []) = u := by
      have hid : holding op T [] = id := by
        funext s
        simp [holding]
      rw [restock, hid, List.map_id]
    rw [hsame]
    rfl
  | cons e es ih =>
    obtain ⟨s, hs⟩ := Option.isSome_iff_exists.mp h
    have hbuffer : u.buffer op T e = .ok (u.restock (holding op T [e])) := by
      rw [buffer, modifyStore, store, hs]
      rfl
    have hcompose : (u.restock (holding op T [e])).restock (holding op T es) =
        u.restock (holding op T (e :: es)) := by
      rw [restock, restock, restock, List.map_map]
      congr 2
      funext s
      by_cases hname : s.type.name = T.name
      · have hname' : s.adapter.type.name = T.name := hname
        simp [holding, DataStore.type, hname']
      · simp [holding, hname]
    rw [List.foldlM_cons, hbuffer, ← hcompose]
    refine ih ?_
    rw [store?_restock (rebuffers_holding _ _ _), Option.isSome_map]
    exact h

end Restocked

/-! ### What is reached -/

section Reached

variable {u : UnitOfWork} {Γ : Declarations} {w w' : World} {T : EntityType} {row e : Entity}

/-- Each node of what was found stands for a row that is reached. -/
lemma Hydrated.reached (h : u.Hydrated w T row e) {x : EntityType × Entity}
    (hx : x ∈ u.nodes T e) : ∃ row', x.2.scalars = row'.scalars ∧
      Relation.ReflTransGen (u.Owns w) (T.name, row) (x.1.name, row') := by
  induction h with
  | @mk T row e scalars names others lengths children ih =>
    rcases mem_nodes.mp hx with rfl | ⟨r, hr, c, hc, hxc⟩
    · exact ⟨row, scalars, .refl⟩
    · obtain ⟨hmem, hname⟩ := mem_relationsOf.mp hr
      have hc' := hc
      rw [← List.map_snd_zip (Nat.le_of_eq (lengths r hr))] at hc'
      obtain ⟨⟨child, _⟩, hp, rfl⟩ := List.mem_map.mp hc'
      obtain ⟨row', hscalars, hreach⟩ := ih r hr _ hp hxc
      exact ⟨row', hscalars, .head ⟨r, hmem, hname, rfl, (List.of_mem_zip hp).1⟩ hreach⟩

/-- What is found of a well-typed row is well-typed. -/
lemma Hydrated.has (hu : u.Searchable Γ) (hw : u.Typed Γ w) (h : u.Hydrated w T row e)
    (hrow : Γ.Has T.name row) : Γ.Has T.name e := by
  induction h with
  | @mk T row e scalars names others lengths children ih =>
    refine .mk (scalars ▸ hrow.scalars) (names.trans hrow.names) fun n hn c hc => ?_
    by_cases hmapped : n.name ∈ (u.relationsOf T).map (·.navigation)
    · obtain ⟨r, hr, hnavigation⟩ := List.mem_map.mp hmapped
      have hdistinct := (List.nodup_append.mp (Γ.of T.name).distinct).2.1
      obtain rfl : ⟨r.navigation, r.child.name⟩ = n :=
        List.inj_on_of_nodup_map hdistinct (hu.declared.navigation hr) hn hnavigation
      have hc : c ∈ e.collection r.navigation := hc
      rw [← List.map_snd_zip (Nat.le_of_eq (lengths r hr))] at hc
      obtain ⟨p, hp, rfl⟩ := List.mem_map.mp hc
      exact ih r hr p hp (Searchable.has_childRows hw (List.of_mem_zip hp).1)
    · rw [others _ hmapped] at hc
      exact hrow.children n hn c hc

/-- Each row that is reached from what was found has a node. -/
lemma Hydrated.exists_node (h : u.Hydrated w T row e) {y : String × Entity}
    (hy : Relation.ReflTransGen (u.Owns w) (T.name, row) y) :
    ∃ x ∈ u.nodes T e, x.1.name = y.1 ∧ x.2.scalars = y.2.scalars := by
  induction h with
  | @mk T row e scalars names others lengths children ih =>
    rcases Relation.ReflTransGen.cases_head hy with rfl | ⟨⟨name, child⟩, howns, hreach⟩
    · exact ⟨(T, e), mem_nodes_self T e, rfl, scalars⟩
    · obtain ⟨r, hmem, hparent, hname, hchild⟩ := howns
      have hr : r ∈ u.relationsOf T := mem_relationsOf.mpr ⟨hmem, hparent⟩
      have hname : r.child.name = name := hname
      subst hname
      have hchild : child ∈ u.childRows w r row := hchild
      rw [← List.map_fst_zip (Nat.le_of_eq (lengths r hr).symm)] at hchild
      obtain ⟨⟨_, c⟩, hp, rfl⟩ := List.mem_map.mp hchild
      obtain ⟨x, hx, hsame⟩ := ih r hr _ hp hreach
      exact ⟨x, mem_nodes.mpr (.inr ⟨r, hr, c, (List.of_mem_zip hp).2, hx⟩), hsame⟩

/-- The row satisfies the predicate, or one comes to it from one that does. -/
def Reached (u : UnitOfWork) (w : World) (s : DataStore) (p : Expr) (x : String × Entity) : Prop :=
  ∃ row ∈ (w.rows s.table).filter (p.holds s.type),
    Relation.ReflTransGen (u.Owns w) (s.type.name, row) x

/-- A row that is reached stands in the table of its type. -/
lemma Reached.stored {s : DataStore} {p : Expr} {x : String × Entity}
    (hu : u.Searchable Γ) (hs : s ∈ u.stores) (h : u.Reached w s p x) :
    ∃ t, u.store? x.1 = some t ∧ x.2 ∈ w.rows t.table := by
  obtain ⟨row, hrow, hreach⟩ := h
  rcases Relation.ReflTransGen.cases_tail hreach with rfl | ⟨y, -, hyx⟩
  · exact ⟨s, store?_of_mem hu.names hs, List.mem_of_mem_filter hrow⟩
  · exact hyx.stored

/-- A search that goes through gives what satisfies the predicate, with all that is reached from
it. -/
lemma Searchable.find_eq_ok (hu : u.Searchable Γ) (hw : u.Typed Γ w) {s : DataStore}
    (hs : s ∈ u.stores) {p : Expr} {es : List Entity} (h : u.find s.type p w = (.ok es, w')) :
    w' = w ∧
      List.Forall₂ (u.Hydrated w s.type) ((w.rows s.table).filter (p.holds s.type)) es := by
  have hfind : u.find s.type p w = u.findWithin w.depth s.type p w := bind_of_ok (get_apply w)
  have hdecides : ∀ row ∈ w.rows s.table, ∃ b, p.satisfied s.type row = .ok b := by
    rw [hfind] at h
    obtain ⟨s', w₁, hstore, h⟩ := bind_eq_ok.mp h
    rw [Search.ofStep, adapt_apply, ofExcept_apply, store, store?_of_mem hu.names hs] at hstore
    cases hstore
    obtain ⟨rows, w₂, hread, -⟩ := bind_eq_ok.mp h
    obtain ⟨t, hm⟩ := hu.memory s hs
    have hselect : Table.select s.type p (w.rows s.table) = .ok rows := by
      have hread := congrArg Prod.fst hread
      rw [Search.ofStep, adapt_apply, DataStore.find_memory hm] at hread
      rcases hx : Table.select s.type p (w.rows s.table) with err | rows'
      · rw [hx] at hread
        cases hread
      · rw [hx] at hread
        cases hread
        rfl
    rcases Table.select_cases s.type p (w.rows s.table) with ⟨hall, -⟩ | ⟨err, herr, -⟩
    · exact hall
    · rw [herr] at hselect
      cases hselect
  have hhydrates := hu.hydratesTo hw w.depth (T := s.type)
    (fun row hrow => hw s hs row (List.mem_of_mem_filter (p := p.holds s.type) hrow)) w rfl
  rw [← hu.findWithin_eq hs hdecides, ← hfind, h] at hhydrates
  exact hhydrates

/-- Under distinct keys the rows that are under the keys of the nodes are those that are reached. -/
lemma Searchable.under_node_iff (hu : u.Searchable Γ) (hw : u.Typed Γ w) (hk : u.DistinctKeys w)
    {s t : DataStore} (hs : s ∈ u.stores) (ht : t ∈ u.stores) {p : Expr} {es : List Entity}
    (hes : List.Forall₂ (u.Hydrated w s.type) ((w.rows s.table).filter (p.holds s.type)) es)
    (hrow : row ∈ w.rows t.table) :
    (∃ e ∈ es, ∃ x ∈ u.nodes s.type e, x.1.name = t.type.name ∧
        t.adapter.schema.under t.type x.2 row = true) ↔
      u.Reached w s p (t.type.name, row) := by
  have htype : t.type = (Γ.of t.type.name).type := (hu.declared.stores t ht).adapter.type
  have hschema : t.adapter.schema.IsOf (Γ.of t.type.name).type :=
    htype ▸ (hu.declared.stores t ht).adapter.schema
  have hkey : t.adapter.schema.KeyNotFloat (Γ.of t.type.name).type := htype ▸ hk.notFloat t ht
  have hfits : ∀ x ∈ w.rows t.table, (Γ.of t.type.name).Fits x.scalars :=
    fun x hx => (hw t ht x hx).scalars
  -- An entity is found under the key of another one if both show the same key.
  have hunder : ∀ x row' : Entity, row' ∈ w.rows t.table → x.scalars = row'.scalars →
      (t.adapter.schema.under t.type x row = true ↔
        t.type.read? row t.adapter.schema.key = t.type.read? row' t.adapter.schema.key) := by
    intro x row' hrow' hscalars
    have hx : (Γ.of t.type.name).Fits x.scalars := hscalars ▸ hfits row' hrow'
    have hiff := Schema.under_iff hschema hkey hx (hfits row hrow)
    rw [← htype] at hiff
    rw [hiff, EntityType.read?, EntityType.read?, EntityType.read?, hscalars]
  constructor
  · rintro ⟨e, he, x, hx, hname, hfound⟩
    obtain ⟨row₀, hrow₀, hydrated⟩ := exists_mem_of_forall₂ hes he
    obtain ⟨row', hscalars, hreach⟩ := hydrated.reached hx
    rw [hname] at hreach
    have hreached : u.Reached w s p (t.type.name, row') := ⟨row₀, hrow₀, hreach⟩
    obtain ⟨t', ht', hrow'⟩ := hreached.stored hu hs
    rw [store?_of_mem hu.names ht] at ht'
    obtain rfl := Option.some.inj ht'
    have hsame := (hunder x.2 row' hrow' hscalars).mp hfound
    obtain rfl : row = row' :=
      List.inj_on_of_nodup_map (List.pairwise_map.mpr (hk.differ t ht)) hrow hrow' hsame
    exact hreached
  · rintro ⟨row₀, hrow₀, hreach⟩
    obtain ⟨e, he, hydrated⟩ := exists_mem_of_forall₂ hes.flip hrow₀
    obtain ⟨x, hx, hname, hscalars⟩ := hydrated.exists_node hreach
    exact ⟨e, he, x, hx, hname, (hunder x.2 row hrow hscalars).mpr rfl⟩

end Reached

/-! ### Finding and deleting -/

section Delete

variable {u : UnitOfWork} {Γ : Declarations} {w w₁ : World}

/-- A plan has the buffered entities. -/
lemma mem_plan {x : Operation × EntityType × Entity} :
    x ∈ u.plan ↔ ∃ s ∈ u.stores, ∃ q ∈ s.pending, x = (q.op, s.type, q.entity) := by
  have hall : ∀ op : Operation, op ∈ Operation.all := fun op => by cases op <;> decide
  simp only [plan, roots, List.mem_flatMap, List.mem_map, List.mem_filter, decide_eq_true_eq]
  constructor
  · rintro ⟨op, -, _, ⟨s, hs, q, ⟨hq, rfl⟩, rfl⟩, rfl⟩
    exact ⟨s, hs, q, hq, rfl⟩
  · rintro ⟨s, hs, q, hq, rfl⟩
    exact ⟨q.op, hall q.op, _, ⟨s, hs, q, ⟨hq, rfl⟩, rfl⟩, rfl⟩

variable {s : DataStore} {op : Operation} {es : List Entity}

/-- Where nothing was buffered, the entities alone are, by the store of their type. -/
lemma Searchable.mem_holding (hu : u.Searchable Γ) (hempty : ∀ t ∈ u.stores, t.pending = [])
    (hs : s ∈ u.stores) {t : DataStore} (ht : t ∈ u.stores) {q : Pending} :
    q ∈ (holding op s.type es t).pending ↔ t = s ∧ ∃ e ∈ es, q = ⟨op, e⟩ := by
  unfold holding
  split
  · rename_i hname
    obtain rfl := List.inj_on_of_nodup_map hu.names ht hs hname
    simp [hempty t ht, eq_comm]
  · rename_i hname
    rw [hempty t ht]
    constructor
    · intro h
      cases h
    · rintro ⟨rfl, -⟩
      exact absurd rfl hname

lemma Searchable.mem_plan_holding (hu : u.Searchable Γ) (hempty : ∀ t ∈ u.stores, t.pending = [])
    (hs : s ∈ u.stores) {x : Operation × EntityType × Entity} :
    x ∈ (u.restock (holding op s.type es)).plan ↔ ∃ e ∈ es, x = (op, s.type, e) := by
  have hf := rebuffers_holding op s.type es
  rw [mem_plan]
  constructor
  · rintro ⟨_, hmem, q, hq, rfl⟩
    obtain ⟨t, ht, rfl⟩ := List.mem_map.mp hmem
    obtain ⟨rfl, e, he, rfl⟩ := (hu.mem_holding hempty hs ht).mp hq
    exact ⟨e, he, by rw [hf.type]⟩
  · rintro ⟨e, he, rfl⟩
    refine ⟨_, List.mem_map_of_mem hs, ⟨op, e⟩, ?_, by rw [hf.type]⟩
    exact (hu.mem_holding hempty hs hs).mpr ⟨rfl, e, he, rfl⟩

/-- The one type takes part from the start, if any. -/
lemma Searchable.types_holding (hu : u.Searchable Γ) (hempty : ∀ t ∈ u.stores, t.pending = [])
    (hs : s ∈ u.stores) (hne : (u.restock (holding op s.type es)).batches ≠ []) :
    es ≠ [] ∧ (u.restock (holding op s.type es)).types = [s.type.name] := by
  have hf := rebuffers_holding op s.type es
  have hall : ∀ T ∈ (u.restock (holding op s.type es)).types, es ≠ [] ∧ T = s.type.name := by
    intro T hT
    obtain ⟨b, hb, rfl⟩ := List.mem_map.mp hT
    obtain ⟨_, hmem, rfl⟩ := List.mem_map.mp hb
    obtain ⟨hmem, hsome⟩ := List.mem_filter.mp hmem
    obtain ⟨t, ht, rfl⟩ := List.mem_map.mp hmem
    obtain ⟨q, hq⟩ := List.exists_mem_of_ne_nil _ (by simpa using hsome)
    obtain ⟨rfl, e, he, -⟩ := (hu.mem_holding hempty hs ht).mp hq
    exact ⟨List.ne_nil_of_mem he, by rw [hf.type]⟩
  have hnodup : (u.restock (holding op s.type es)).types.Nodup :=
    (lists_batches (names_restock hf hu.names)).nodup
  have hnonempty : (u.restock (holding op s.type es)).types ≠ [] := by simpa [types] using hne
  obtain ⟨T, rest, htypes⟩ := List.exists_cons_of_ne_nil hnonempty
  rw [htypes] at hall hnodup ⊢
  obtain ⟨hsome, rfl⟩ := hall T (by simp)
  refine ⟨hsome, ?_⟩
  rcases rest with _ | ⟨T', rest⟩
  · rfl
  · obtain ⟨-, rfl⟩ := hall T' (by simp)
    simp at hnodup

/-- Well-typed entities can be buffered where nothing was. -/
lemma Searchable.holding (hu : u.Searchable Γ) (hempty : ∀ t ∈ u.stores, t.pending = [])
    (hs : s ∈ u.stores) (hhas : ∀ e ∈ es, Γ.Has s.type.name e) :
    (u.restock (UnitOfWork.holding op s.type es)).Searchable Γ :=
  hu.restock (rebuffers_holding op s.type es) fun t ht q hq => by
    obtain ⟨rfl, e, he, rfl⟩ := (hu.mem_holding hempty hs ht).mp hq
    exact hhas e he

lemma Searchable.deletes_holding (hu : u.Searchable Γ) (hempty : ∀ t ∈ u.stores, t.pending = [])
    (hs : s ∈ u.stores) (hhas : ∀ e ∈ es, Γ.Has s.type.name e) :
    ∀ b ∈ (u.restock (UnitOfWork.holding .delete s.type es)).batches,
      (u.restock (UnitOfWork.holding .delete s.type es)).Deletes Γ b := by
  have hf := rebuffers_holding .delete s.type es
  intro b hb q hq
  obtain ⟨_, hmem, rfl⟩ := List.mem_map.mp hb
  obtain ⟨t, ht, rfl⟩ := List.mem_map.mp (List.mem_of_mem_filter hmem)
  obtain ⟨rfl, e, he, rfl⟩ := (hu.mem_holding hempty hs ht).mp hq
  refine ⟨rfl, ?_, ?_⟩
  · rw [hf.type]
    exact hhas e he
  · rw [hf.type, store?_restock hf, Option.isSome_map, store?_of_mem hu.names hs]
    rfl

/-- The rows to be deleted are those that are under the key of a node of what is buffered. -/
lemma Searchable.doomed_holding_iff (hu : u.Searchable Γ) (hempty : ∀ t ∈ u.stores, t.pending = [])
    (hs : s ∈ u.stores) (t : DataStore) (row : Entity) :
    (u.restock (UnitOfWork.holding op s.type es)).doomed
        (UnitOfWork.holding op s.type es t) row = true ↔
      ∃ e ∈ es, ∃ x ∈ u.nodes s.type e, x.1.name = t.type.name ∧
        t.adapter.schema.under t.type x.2 row = true := by
  have hf := rebuffers_holding op s.type es
  rw [doomed_iff, hf.type, hf]
  constructor
  · rintro ⟨y, hy, x, hx, hfound⟩
    obtain ⟨e, he, rfl⟩ := (hu.mem_plan_holding hempty hs).mp hy
    rw [nodes_restock] at hx
    exact ⟨e, he, x, hx, hfound⟩
  · rintro ⟨e, he, x, hx, hfound⟩
    refine ⟨_, (hu.mem_plan_holding hempty hs).mpr ⟨e, he, rfl⟩, x, ?_, hfound⟩
    rw [nodes_restock]
    exact hx

open Classical in
/-- **Deleting what was found takes out exactly what is reached from it.** Where a search goes
through over tables under distinct keys, and nothing else is buffered, deletions of all it returns
can be buffered, and their commit goes through unless the backend that takes part has a transaction
open already. Then every table has its former rows in their order, but for those that satisfy the
predicate and all that belong to them, directly or by way of others. -/
theorem delete_found (hu : u.Searchable Γ) (hg : u.Unguarded) (hw : u.Typed Γ w)
    (hk : u.DistinctKeys w) (hempty : ∀ t ∈ u.stores, t.pending = []) (hs : s ∈ u.stores) {p : Expr}
    (h : u.find s.type p w = (.ok es, w₁)) (hready : es ≠ [] → u.Ready w [s.type.name]) :
    ∃ u' c w', es.foldlM (fun u e => u.buffer .delete s.type e) u = .ok u' ∧
      u'.commit.1 w₁ = (.ok c, w') ∧
      (∀ t ∈ u.stores, w'.rows t.table =
        (w.rows t.table).filter fun row => ¬u.Reached w s p (t.type.name, row)) ∧
      ∀ table, (∀ t ∈ u.stores, t.table ≠ table) → w'.rows table = w.rows table := by
  obtain ⟨rfl, hes⟩ := hu.find_eq_ok hw hs h
  have hf : Rebuffers (holding .delete s.type es) := rebuffers_holding _ _ _
  have hregistered : (u.store? s.type.name).isSome := by rw [store?_of_mem hu.names hs]; rfl
  have hhas : ∀ e ∈ es, Γ.Has s.type.name e := by
    intro e he
    obtain ⟨row, hrow, hydrated⟩ := exists_mem_of_forall₂ hes he
    exact hydrated.has hu hw (hw s hs row (List.mem_of_mem_filter hrow))
  have hu' : (u.restock (holding .delete s.type es)).Searchable Γ := hu.holding hempty hs hhas
  have hdel := hu.deletes_holding hempty hs hhas
  obtain ⟨c, w', hcommit⟩ := hu'.commit_total (hg.restock hf) (hk.restock hf) hdel fun hne => by
    obtain ⟨hsome, htypes⟩ := hu.types_holding hempty hs hne
    rw [htypes]
    exact (hready hsome).restock hf
  obtain ⟨hrows, hothers⟩ := hu'.rows_of_commit (hw.restock hf) (hk.restock hf)
    (fun x hx => by obtain ⟨e, -, rfl⟩ := (hu.mem_plan_holding hempty hs).mp hx; rfl) hcommit
  have hbuffer := foldlM_buffer hregistered .delete es
  refine ⟨_, c, w', hbuffer, hcommit, fun t ht => ?_, fun table ht => ?_⟩
  · have hrows := hrows _ (List.mem_map_of_mem ht)
    rw [hf.table] at hrows
    rw [hrows]
    refine List.filter_congr fun row hrow => ?_
    have hdoomed : (u.restock (holding .delete s.type es)).doomed
        (holding .delete s.type es t) row = true ↔ u.Reached w₁ s p (t.type.name, row) :=
      (hu.doomed_holding_iff hempty hs t row).trans (hu.under_node_iff hw hk hs ht hes hrow)
    rw [← hdoomed]
    simp
  · refine hothers table fun t' ht' => ?_
    obtain ⟨t, hmem, rfl⟩ := List.mem_map.mp ht'
    rw [hf.table]
    exact ht t hmem

end Delete

end UnitOfWork

namespace Archive

/-- The archive with nothing buffered. -/
def idle : UnitOfWork := archive.clear

lemma idle_searchable : idle.Searchable types :=
  archive_searchable.restock (f := DataStore.clear) (fun _ => rfl) fun _ _ _ hq => nomatch hq

lemma idle_unguarded : idle.Unguarded := by
  intro s hs
  rcases List.mem_pair.mp hs with rfl | rfl <;> rfl

lemma idle_empty : ∀ t ∈ idle.stores, t.pending = [] := by
  intro s hs
  rcases List.mem_pair.mp hs with rfl | rfl <;> rfl

lemma idle_keyNotFloat : ∀ s ∈ idle.stores, s.adapter.schema.KeyNotFloat s.type := by
  intro s hs
  rcases List.mem_pair.mp hs with rfl | rfl
  · exact (by decide : ∀ f ∈ documentType.type.fields,
      f.name = documentAdapter.schema.key → f.type.scalar ≠ .float)
  · exact (by decide : ∀ f ∈ folderType.type.fields,
      f.name = folderAdapter.schema.key → f.type.scalar ≠ .float)

/-- The folders under smaller keys than the given one. -/
def before (i : Int64) : Expr := .binary .lt (.field "folderId") (.constant (.int i))

def folders : DataStore := ⟨folderAdapter, []⟩

lemma tangled_fits {row : Entity} (h : row ∈ tangled.rows "folders") :
    folderType.Fits row.scalars := by
  obtain ⟨id, parent, name, rfl⟩ := folder_of_mem h
  exact folder_fits _ _ _ _ _

lemma tangled_distinctKeys : idle.DistinctKeys tangled where
  differ s hs := by
    rcases List.mem_pair.mp hs with rfl | rfl
    · exact List.pairwise_singleton _ _
    · exact Table.WellKeyed.keysDiffer (d := folderType) ⟨fun row hrow => (tangled_fits hrow),
        by decide⟩ ⟨.int32, rfl, rfl⟩
  notFloat := idle_keyNotFloat

/-- The folder in another one is found there and by itself. -/
def letters : Entity := folder 7 (some 1) "letters" [] [document (-4) 7 "Reply"]

/-- Deletions of the two. -/
def discarding : UnitOfWork :=
  idle.restock
    (UnitOfWork.holding .delete folderType.type [folder 1 none "all" [letters] [], letters])

lemma discarding_buffered : [folder 1 none "all" [letters] [], letters].foldlM
    (fun u e => u.buffer .delete folderType.type e) idle = .ok discarding :=
  UnitOfWork.foldlM_buffer rfl _ _

lemma discarding_applied :
    (discarding.commit.1 tangled).1.toOption.map (·.applied) = some 5 := by
  cbv

lemma discarding_folders :
    (discarding.commit.1 tangled).2.rows "folders" = [folder 9 (some 9) "knot" [] []] := by
  cbv

lemma discarding_documents : (discarding.commit.1 tangled).2.rows "documents" = [] := by
  cbv

/-- A folder is deleted twice, with the document that is in it; the one that is in itself stays. -/
theorem tangled_deleted : ∃ u' c w',
    idle.find folderType.type (before 9) tangled =
      (.ok [folder 1 none "all" [letters] [], letters], tangled) ∧
    [folder 1 none "all" [letters] [], letters].foldlM
      (fun u e => u.buffer .delete folderType.type e) idle = .ok u' ∧
    u'.commit.1 tangled = (.ok c, w') ∧ c.applied = 5 ∧
    w'.rows "folders" = [folder 9 (some 9) "knot" [] []] ∧ w'.rows "documents" = [] ∧
    ¬idle.Reached tangled folders (before 9) ("Folder", folder 9 (some 9) "knot" [] []) := by
  have hfolders : folders ∈ idle.stores := List.mem_cons_of_mem _ List.mem_cons_self
  have hfind : idle.find folderType.type (before 9) tangled =
      (.ok [folder 1 none "all" [letters] [], letters], tangled) := rfl
  have hready : idle.Ready tangled ["Folder"] := by
    intro b hb
    have hb : some (BackendId.memory "archive") = some b := hb
    cases hb
    rfl
  obtain ⟨u', c, w', hbuffer, hcommit, hrows, -⟩ := UnitOfWork.delete_found idle_searchable
    idle_unguarded (tangled_typed.restock (f := DataStore.clear) fun _ => rfl) tangled_distinctKeys
    idle_empty hfolders hfind fun _ => hready
  obtain rfl : discarding = u' := Except.ok.inj (discarding_buffered.symm.trans hbuffer)
  have happlied := discarding_applied
  have hkept := discarding_folders
  have hgone := discarding_documents
  rw [hcommit] at happlied hkept hgone
  refine ⟨discarding, c, w', hfind, hbuffer, hcommit, Option.some.inj happlied, hkept, hgone, ?_⟩
  have hrows : w'.rows "folders" = _ := hrows folders hfolders
  have hknot : folder 9 (some 9) "knot" [] [] ∈ w'.rows "folders" := by
    rw [hkept]
    exact List.mem_singleton.mpr rfl
  rw [hrows, List.mem_filter] at hknot
  have hnot : ¬idle.Reached tangled folders (before 9)
      (folders.type.name, folder 9 (some 9) "knot" [] []) := by simpa using hknot.2
  exact hnot

/-- The shelves while a transaction is open. -/
def occupied : World := { shelves with backends := [(.memory "archive", .journal (some []))] }

lemma occupied_typed : idle.Typed types occupied := by
  intro s hs row hrow
  rcases List.mem_pair.mp hs with rfl | rfl
  · rw [List.mem_singleton.mp hrow]
    exact document_has _ _ _
  · rcases List.mem_pair.mp hrow with rfl | rfl <;> exact folder_has (by simp) (by simp)

lemma occupied_distinctKeys : idle.DistinctKeys occupied where
  differ s hs := by
    rcases List.mem_pair.mp hs with rfl | rfl
    · exact List.pairwise_singleton _ _
    · refine Table.WellKeyed.keysDiffer (d := folderType) ⟨fun row hrow => ?_, by decide⟩
        ⟨.int32, rfl, rfl⟩
      exact (occupied_typed folders (List.mem_cons_of_mem _ List.mem_cons_self) row hrow).scalars
  notFloat := idle_keyNotFloat

lemma occupied_found : idle.find folderType.type (before 9) occupied =
    (.ok [folder 1 none "all" [letters] [], letters], occupied) := rfl

/-- Every folder is found, so none goes in circles; and nothing is in documents. -/
lemma occupied_not_circles (x : String × Entity) : ¬idle.Circles occupied x := by
  have hfolders : folders ∈ idle.stores := List.mem_cons_of_mem _ List.mem_cons_self
  obtain ⟨-, hes⟩ := idle_searchable.find_eq_ok occupied_typed hfolders occupied_found
  rintro ⟨⟨name, row⟩, -, hcircle⟩
  obtain ⟨_, ⟨r, hr, hparent, -⟩, -⟩ := Relation.TransGen.head'_iff.mp hcircle
  obtain ⟨_, -, howns⟩ := Relation.TransGen.tail'_iff.mp hcircle
  obtain ⟨s, hs, hrow⟩ := howns.stored
  obtain rfl : "Folder" = name := by
    rcases List.mem_pair.mp hr with rfl | rfl <;> exact hparent
  cases hs
  have hfound : row ∈ (occupied.rows folders.table).filter ((before 9).holds folders.type) := by
    rcases List.mem_pair.mp hrow with rfl | rfl
    · exact List.mem_cons_self
    · exact List.mem_cons_of_mem _ List.mem_cons_self
  obtain ⟨e, -, hydrated⟩ := exists_mem_of_forall₂ hes.flip hfound
  exact UnitOfWork.not_circles_of_acc hydrated.acc ⟨_, .refl, hcircle⟩

/-- While a transaction is open on the journal, what was found can be buffered to be deleted, but
the commit is refused. -/
theorem occupied_not_deleted : idle.Searchable types ∧ idle.Unguarded ∧
    idle.Typed types occupied ∧ idle.DistinctKeys occupied ∧ (∀ x, ¬idle.Circles occupied x) ∧
    ∃ es u' err, idle.find folderType.type (before 9) occupied = (.ok es, occupied) ∧
      es.foldlM (fun u e => u.buffer .delete folderType.type e) idle = .ok u' ∧
      (u'.commit.1 occupied).1 = .error err :=
  ⟨idle_searchable, idle_unguarded, occupied_typed, occupied_distinctKeys, occupied_not_circles,
    _, _, _, occupied_found, discarding_buffered, rfl⟩

end Archive

end EntityStore
