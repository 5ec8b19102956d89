import EntityStore.Proofs.Declared
import EntityStore.Proofs.Participation
import EntityStore.Proofs.WriteTree

/-!
Which writes a commit makes, and in which order. A commit that goes through has made the trees of
writes of the buffered entities, phase by phase, and no other write; and it has left in the batches
what these writes left.
-/

namespace EntityStore

open Fallible

/-! ### One tree -/

/-- Between two points of a commit the given writes were made, and counted. -/
structure Made (p p' : Progress) (ws : List Write) : Prop where
  writes : p'.world.writes = p.world.writes ++ ws
  applied : p'.applied = p.applied + ws.length

lemma Made.nil (p : Progress) : Made p p [] := ⟨by simp, rfl⟩

lemma Made.append {p₁ p₂ p₃ : Progress} {ws ws' : List Write} (h : Made p₁ p₂ ws)
    (h' : Made p₂ p₃ ws') : Made p₁ p₃ (ws ++ ws') where
  writes := by rw [h'.writes, h.writes, List.append_assoc]
  applied := by rw [h'.applied, h.applied, List.length_append, Nat.add_assoc]

/-- The phase in which buffered writes of the kind are made. -/
def Operation.phase : Operation → Phase
  | insert => .insert
  | update => .update
  | delete => .delete

namespace UnitOfWork

variable {u : UnitOfWork} {tx : Transaction} {phase : Phase} {op : Operation} {T : EntityType}
  {e e' c c' : Entity} {r : Relation} {p p' : Progress}

/-- A write that goes through has gone to the store of the type. -/
lemma write_eq_ok (h : u.write tx phase op T e p = (.ok e', p')) :
    ∃ s, u.store? T.name = some s ∧ s.adapter.write tx op e p.world = (.ok e', p'.world) ∧
      p'.applied = p.applied + 1 := by
  obtain ⟨s, p₁, hs, h⟩ := bind_eq_ok.mp h
  obtain ⟨hstore, rfl⟩ := Committing.ofExcept_eq_ok hs
  obtain ⟨e₁, p₂, hw, h⟩ := bind_eq_ok.mp h
  obtain ⟨hw, happlied⟩ := Committing.ofStep_eq_ok hw
  obtain ⟨_, p₃, hm, h⟩ := bind_eq_ok.mp h
  obtain ⟨-, rfl⟩ := Prod.mk.inj hm
  cases h
  exact ⟨s, store_eq_ok hstore, hw, by simp [happlied]⟩

lemma write_ok (h : u.write tx phase op T e p = (.ok e', p')) :
    ∃ s, u.store? T.name = some s ∧ s.adapter.Leaves op e e' ∧
      Made p p' [⟨op, T.name, e.scalars⟩] := by
  obtain ⟨s, hs, hw, happlied⟩ := write_eq_ok h
  obtain ⟨hwrites, hleaves⟩ := Adapter.write_ok hw
  have hname : s.adapter.type.name = T.name := (store?_eq_some hs).2
  rw [hname] at hwrites
  exact ⟨s, hs, hleaves, hwrites, happlied⟩

/-- What is written below entities of limited height is what the plan says. -/
def WritesBelow (u : UnitOfWork) (levels : Nat)
    (below : Phase → EntityType → Entity → Committing Entity) : Prop :=
  ∀ op T e e' p p', e.height ≤ levels → below (Operation.phase op) T e p = (.ok e', p') →
    e'.scalars = e.scalars ∧ ∃ ts, u.CascadedAll op e.scalars (u.below T e) (u.below T e') ts ∧
      Made p p' (Written.orderAll ts)

section Below

variable {levels : Nat} {below : Phase → EntityType → Entity → Committing Entity}

/-- A parent is written before what hangs below it. -/
lemma cascaded_of_write (hb : u.WritesBelow levels below) (hop : op ≠ .delete)
    (hh : e.height ≤ levels) {e₁ : Entity} {p₁ : Progress}
    (hw : u.write tx phase op T e p = (.ok e₁, p₁))
    (h : below op.phase T e₁ p₁ = (.ok e', p')) :
    ∃ t, u.Cascaded op T e e' t ∧ Made p p' t.order := by
  obtain ⟨s, hs, hleaves, hmade⟩ := write_ok hw
  rw [← Entity.height_congr hleaves.children] at hh
  obtain ⟨hscalars, ts, hts, hmade'⟩ := hb op T e₁ e' p₁ p' hh h
  rw [below_congr hleaves.children] at hts
  refine ⟨_, .node hs hleaves hscalars hts, ?_⟩
  cases op with
  | delete => exact absurd rfl hop
  | insert => exact hmade.append hmade'
  | update => exact hmade.append hmade'

/-- What is deleted goes after what hangs below it. -/
lemma cascaded_of_delete (hb : u.WritesBelow levels below) (hh : e.height ≤ levels) {e₁ : Entity}
    {p₁ : Progress} (h : below .delete T e p = (.ok e₁, p₁))
    (hw : u.write tx phase .delete T e₁ p₁ = (.ok e', p')) :
    ∃ t, u.Cascaded .delete T e e' t ∧ Made p p' t.order := by
  obtain ⟨hscalars, ts, hts, hmade⟩ := hb .delete T e e₁ p p₁ hh h
  obtain ⟨s, hs, hleaves, hmade'⟩ := write_ok hw
  obtain rfl := hleaves.eq_of_ne (by decide)
  rw [hscalars] at hmade'
  exact ⟨_, .node hs (Adapter.leaves_self (by decide) e) hscalars hts, hmade.append hmade'⟩

lemma writeChild_ok (hb : u.WritesBelow levels below) (hh : c.height ≤ levels) {s : DataStore}
    (hs : u.store? r.child.name = some s) {left : Record} {v : Value}
    (hv : r.parent.get left r.join.parentField = some v)
    (h : u.writeChild tx below op.phase r s.adapter.schema v c p = (.ok c', p')) :
    ∃ c₁ t, Receives op left r c c₁ ∧ u.Cascaded (u.childOperation op r c₁) r.child c₁ c' t ∧
      Made p p' t.order := by
  cases op with
  | insert =>
    obtain ⟨c₁, p₁, ha, h⟩ := bind_eq_ok.mp h
    obtain ⟨hassign, rfl⟩ := Committing.ofExcept_eq_ok ha
    have hr : Receives .insert left r c c₁ := ⟨v, hv, hassign⟩
    rw [← Entity.height_congr hr.children] at hh
    obtain ⟨c₂, p₂, hw, h⟩ := bind_eq_ok.mp h
    obtain ⟨t, ht, hmade⟩ := cascaded_of_write hb (by decide) hh hw h
    exact ⟨c₁, t, hr, ht, hmade⟩
  | update =>
    obtain ⟨c₁, p₁, ha, h⟩ := bind_eq_ok.mp h
    obtain ⟨hassign, rfl⟩ := Committing.ofExcept_eq_ok ha
    have hr : Receives .update left r c c₁ := ⟨v, hv, hassign⟩
    rw [← Entity.height_congr hr.children] at hh
    by_cases hc : s.adapter.schema.isTransient r.child c₁
    · rw [if_pos hc] at h
      have hop : u.childOperation .update r c₁ = .insert := by simp [childOperation, hs, hc]
      obtain ⟨c₂, p₂, hw, h⟩ := bind_eq_ok.mp h
      obtain ⟨t, ht, hmade⟩ := cascaded_of_write hb (by decide) hh hw h
      exact ⟨c₁, t, hr, by rw [hop]; exact ht, hmade⟩
    · rw [if_neg hc] at h
      have hop : u.childOperation .update r c₁ = .update := by simp [childOperation, hs, hc]
      obtain ⟨c₂, p₂, hw, h⟩ := bind_eq_ok.mp h
      obtain ⟨t, ht, hmade⟩ := cascaded_of_write hb (by decide) hh hw h
      exact ⟨c₁, t, hr, by rw [hop]; exact ht, hmade⟩
  | delete =>
    obtain ⟨c₁, p₁, hbelow, h⟩ := bind_eq_ok.mp h
    obtain ⟨t, ht, hmade⟩ := cascaded_of_delete hb hh hbelow h
    exact ⟨c, t, rfl, ht, hmade⟩

lemma mapM_writeChild_ok (hb : u.WritesBelow levels below) {cs cs' : List Entity}
    (hh : ∀ c ∈ cs, c.height ≤ levels) {s : DataStore} (hs : u.store? r.child.name = some s)
    {left : Record} {v : Value} (hv : r.parent.get left r.join.parentField = some v)
    (h : cs.mapM (u.writeChild tx below op.phase r s.adapter.schema v) p = (.ok cs', p')) :
    ∃ ts, u.CascadedAll op left (cs.map (r, ·)) (cs'.map (r, ·)) ts ∧
      Made p p' (Written.orderAll ts) := by
  induction cs generalizing p cs' with
  | nil =>
    cases h
    exact ⟨[], .nil, .nil _⟩
  | cons c cs ih =>
    rw [List.mapM_cons] at h
    obtain ⟨c₁, p₁, hc, h⟩ := bind_eq_ok.mp h
    obtain ⟨cs₁, p₂, hcs, h⟩ := bind_eq_ok.mp h
    cases h
    obtain ⟨c₂, t, hr, ht, hmade⟩ := writeChild_ok hb (hh c (by simp)) hs hv hc
    obtain ⟨ts, hts, hmade'⟩ := ih (fun x hx => hh x (by simp [hx])) hcs
    exact ⟨t :: ts, .cons hr ht hts, hmade.append hmade'⟩

/-- The children under one relation. Its collection alone is changed. -/
lemma writeChildren_ok (hb : u.WritesBelow levels below)
    (hh : ∀ c ∈ e.collection r.navigation, c.height ≤ levels)
    (h : u.writeChildren tx below op.phase e r p = (.ok e', p')) :
    e'.scalars = e.scalars ∧
      (∀ other, other ≠ r.navigation → e'.collection other = e.collection other) ∧
      ∃ ts, u.CascadedAll op e.scalars ((e.collection r.navigation).map (r, ·))
          ((e'.collection r.navigation).map (r, ·)) ts ∧ Made p p' (Written.orderAll ts) := by
  unfold writeChildren at h
  split at h
  · rename_i hempty
    cases h
    rw [List.isEmpty_iff.mp hempty]
    exact ⟨rfl, fun _ _ => rfl, [], .nil, .nil _⟩
  · rename_i hsome
    obtain ⟨v, p₁, hv, h⟩ := bind_eq_ok.mp h
    obtain ⟨hread, rfl⟩ := Committing.ofExcept_eq_ok hv
    obtain ⟨s, p₂, hs, h⟩ := bind_eq_ok.mp h
    obtain ⟨hstore, rfl⟩ := Committing.ofExcept_eq_ok hs
    obtain ⟨cs, p₃, hcs, h⟩ := bind_eq_ok.mp h
    cases h
    have hget : r.parent.get e.scalars r.join.parentField = some v := EntityType.read_eq_ok hread
    have hname : r.navigation ∈ e.children.map Prod.fst :=
      Entity.mem_names_of_collection_ne_nil (mt List.isEmpty_iff.mpr hsome)
    refine ⟨rfl, fun other ho => Entity.collection_withCollection_of_ne e cs ho, ?_⟩
    rw [Entity.collection_withCollection_self hname]
    exact mapM_writeChild_ok hb hh (store_eq_ok hstore) hget hcs

/-- The children under relations of distinct navigations, one relation after another. -/
lemma foldlM_writeChildren_ok (hb : u.WritesBelow levels below) {rs : List Relation}
    (hd : (rs.map (·.navigation)).Nodup)
    (hh : ∀ r ∈ rs, ∀ c ∈ e.collection r.navigation, c.height ≤ levels)
    (h : rs.foldlM (u.writeChildren tx below op.phase) e p = (.ok e', p')) :
    e'.scalars = e.scalars ∧
      (∀ other, other ∉ rs.map (·.navigation) → e'.collection other = e.collection other) ∧
      ∃ ts, u.CascadedAll op e.scalars
          (rs.flatMap fun r => (e.collection r.navigation).map (r, ·))
          (rs.flatMap fun r => (e'.collection r.navigation).map (r, ·)) ts ∧
        Made p p' (Written.orderAll ts) := by
  induction rs generalizing e p with
  | nil =>
    cases h
    exact ⟨rfl, fun _ _ => rfl, [], .nil, .nil _⟩
  | cons r rs ih =>
    rw [List.foldlM_cons] at h
    obtain ⟨e₁, p₁, hr, h⟩ := bind_eq_ok.mp h
    rw [List.map_cons, List.nodup_cons] at hd
    obtain ⟨hs, hsame, ts, hts, hmade⟩ := writeChildren_ok hb (hh r (by simp)) hr
    -- No later relation has the navigation of this one, so their collections are as they were.
    have hcoll : ∀ q ∈ rs, e₁.collection q.navigation = e.collection q.navigation :=
      fun q hq => hsame _ fun heq => hd.1 (heq ▸ List.mem_map_of_mem hq)
    have hh₁ : ∀ q ∈ rs, ∀ c ∈ e₁.collection q.navigation, c.height ≤ levels := by
      intro q hq c hc
      rw [hcoll q hq] at hc
      exact hh q (by simp [hq]) c hc
    obtain ⟨hs', hsame', us, hus, hmade'⟩ := ih hd.2 hh₁ h
    have hrest : (rs.flatMap fun q => (e₁.collection q.navigation).map (q, ·)) =
        rs.flatMap fun q => (e.collection q.navigation).map (q, ·) := by
      refine List.flatMap_congr fun q hq => ?_
      rw [hcoll q hq]
    rw [hs, hrest] at hus
    rw [← hsame' _ hd.1] at hts
    refine ⟨by rw [hs', hs], fun other ho => ?_, ts ++ us, ?_, ?_⟩
    · rw [List.map_cons, List.mem_cons, not_or] at ho
      rw [hsame' _ ho.2, hsame _ ho.1]
    · rw [List.flatMap_cons, List.flatMap_cons]
      exact hts.append hus
    · rw [Written.orderAll_append]
      exact hmade.append hmade'

end Below

/-- A cascade down to enough levels writes what the plan says. -/
lemma writesBelow_cascadeWithin (hm : u.MapsOnce) (levels : Nat) :
    u.WritesBelow levels (u.cascadeWithin tx levels) := by
  induction levels with
  | zero =>
    intro op T e e' p p' hh h
    cases h
    have hnone : u.below T e = [] := by
      refine List.flatMap_eq_nil_iff.mpr fun r _ => ?_
      refine List.map_eq_nil_iff.mpr (List.eq_nil_iff_forall_not_mem.mpr fun c hc => ?_)
      have := Entity.height_lt_of_mem_collection hc
      omega
    rw [hnone]
    exact ⟨rfl, [], .nil, .nil _⟩
  | succ levels ih =>
    intro op T e e' p p' hh h
    have hlevels : ∀ r ∈ u.relationsOf T, ∀ c ∈ e.collection r.navigation, c.height ≤ levels := by
      intro r _ c hc
      have := Entity.height_lt_of_mem_collection hc
      omega
    obtain ⟨hscalars, -, hwrites⟩ := foldlM_writeChildren_ok ih (hm.nodup_relationsOf T) hlevels h
    exact ⟨hscalars, hwrites⟩

lemma writeTree_ok (hm : u.MapsOnce) (h : u.writeTree tx op.phase op T e p = (.ok e', p')) :
    ∃ t, u.Cascaded op T e e' t ∧ Made p p' t.order := by
  have hb : u.WritesBelow e.height (u.cascadeWithin tx e.height) :=
    writesBelow_cascadeWithin hm e.height
  cases op with
  | delete =>
    obtain ⟨e₁, p₁, hc, hw⟩ := bind_eq_ok.mp h
    exact cascaded_of_delete hb (Nat.le_refl _) hc hw
  | insert =>
    obtain ⟨e₁, p₁, hw, hc⟩ := bind_eq_ok.mp h
    obtain ⟨s, -, hleaves, -⟩ := write_ok hw
    rw [cascade, Entity.height_congr hleaves.children] at hc
    exact cascaded_of_write hb (by decide) (Nat.le_refl _) hw hc
  | update =>
    obtain ⟨e₁, p₁, hw, hc⟩ := bind_eq_ok.mp h
    obtain ⟨s, -, hleaves, -⟩ := write_ok hw
    rw [cascade, Entity.height_congr hleaves.children] at hc
    exact cascaded_of_write hb (by decide) (Nat.le_refl _) hw hc

end UnitOfWork

/-! ### All trees -/

/-- The entities of one kind of write in a batch. -/
def Batch.roots (op : Operation) (b : Batch) : List (EntityType × Entity) :=
  (b.pending.filter (·.op = op)).map fun q => (b.type, q.entity)

/-- All entities of batches in the order of a commit. -/
def Batch.plan (bs : List Batch) : List (Operation × EntityType × Entity) :=
  Operation.all.flatMap fun op => (bs.flatMap (Batch.roots op)).map (op, ·)

lemma Batch.plan_eq (bs : List Batch) : Batch.plan bs =
    (bs.flatMap (Batch.roots .insert)).map (.insert, ·) ++
      ((bs.flatMap (Batch.roots .update)).map (.update, ·) ++
        (bs.flatMap (Batch.roots .delete)).map (.delete, ·)) := by
  simp [plan, Operation.all]

namespace UnitOfWork

section Plan

variable (u : UnitOfWork)

/-- The buffered entities of one kind of write, store by store in the order of their registration,
each in the order of recording. -/
def roots (op : Operation) : List (EntityType × Entity) :=
  u.stores.flatMap fun s => (s.pending.filter (·.op = op)).map fun q => (s.type, q.entity)

/-- All buffered entities in the order of a commit: first those to be inserted, then those to be
updated, then those to be deleted. -/
def plan : List (Operation × EntityType × Entity) :=
  Operation.all.flatMap fun op => (u.roots op).map (op, ·)

/-- For each entity of a plan there is the tree of its writes. -/
def CarriesOut (plan : List (Operation × EntityType × Entity)) (forest : List Written) : Prop :=
  List.Forall₂ (fun x t => u.Cascades x.1 x.2.1 x.2.2 t) plan forest

/-- For each entity of a plan there is what is left of it, and the tree of the writes that left
it. -/
inductive Fulfils : List (Operation × EntityType × Entity) →
    List (Operation × EntityType × Entity) → List Written → Prop
  | nil : Fulfils [] [] []
  | cons {op : Operation} {T : EntityType} {e e' : Entity} {t : Written}
    {plan left : List (Operation × EntityType × Entity)} {forest : List Written}
    (head : u.Cascaded op T e e' t) (tail : Fulfils plan left forest) :
    Fulfils ((op, T, e) :: plan) ((op, T, e') :: left) (t :: forest)

end Plan

variable {u : UnitOfWork} {tx : Transaction} {op : Operation} {p p' : Progress}

lemma roots_batches (op : Operation) : u.batches.flatMap (Batch.roots op) = u.roots op := by
  unfold batches roots
  generalize u.stores = stores
  induction stores with
  | nil => rfl
  | cons s stores ih =>
    rw [List.flatMap_cons, ← ih]
    rcases hp : s.pending with _ | ⟨q, qs⟩
    · simp [hp]
    · simp [hp, Batch.roots]

lemma plan_batches (u : UnitOfWork) : Batch.plan u.batches = u.plan := by
  unfold Batch.plan plan
  simp only [roots_batches]

/-- What is planned for well-typed buffers is well-typed. -/
lemma Declared.has_plan {Γ : Declarations} (hu : u.Declared Γ)
    {x : Operation × EntityType × Entity} (hx : x ∈ u.plan) : Γ.Has x.2.1.name x.2.2 := by
  obtain ⟨op, -, hx⟩ := List.mem_flatMap.mp hx
  obtain ⟨y, hy, rfl⟩ := List.mem_map.mp hx
  obtain ⟨s, hs, hy⟩ := List.mem_flatMap.mp hy
  obtain ⟨q, hq, rfl⟩ := List.mem_map.mp hy
  exact (hu.stores s hs).pending q (List.mem_of_mem_filter hq)

lemma CarriesOut.length_orderAll {plan : List (Operation × EntityType × Entity)}
    {forest : List Written} (h : u.CarriesOut plan forest) :
    (Written.orderAll forest).length = (plan.map fun x => u.reachable x.2.1 x.2.2).sum := by
  induction h with
  | nil => rfl
  | cons h _ ih => simp [Written.orderAll, h.length_order, ih]

section Fulfils

variable {plan left plan' left' : List (Operation × EntityType × Entity)}
  {forest forest' : List Written}

lemma Fulfils.append (h : u.Fulfils plan left forest) (h' : u.Fulfils plan' left' forest') :
    u.Fulfils (plan ++ plan') (left ++ left') (forest ++ forest') := by
  induction h with
  | nil => exact h'
  | cons head _ ih => exact .cons head ih

lemma Fulfils.carriesOut (h : u.Fulfils plan left forest) : u.CarriesOut plan forest := by
  induction h with
  | nil => exact .nil
  | cons head _ ih => exact .cons head.cascades ih

end Fulfils

/-- The writes of one kind in a buffer; what else is buffered stays as it was. -/
lemma mapM_pending_ok (hm : u.MapsOnce) {T : EntityType} {qs qs' : List Pending}
    (h : qs.mapM (fun q : Pending => if q.op = op then do
        return { q with entity := ← u.writeTree tx op.phase op T q.entity }
      else return q : Pending → Committing Pending) p = (.ok qs', p')) :
    (∃ ts, u.Fulfils ((qs.filter (·.op = op)).map fun q => (op, T, q.entity))
          ((qs'.filter (·.op = op)).map fun q => (op, T, q.entity)) ts ∧
        Made p p' (Written.orderAll ts)) ∧
      ∀ other, other ≠ op → qs'.filter (·.op = other) = qs.filter (·.op = other) := by
  induction qs generalizing p qs' with
  | nil =>
    cases h
    exact ⟨⟨[], .nil, .nil _⟩, fun _ _ => rfl⟩
  | cons q qs ih =>
    rw [List.mapM_cons] at h
    obtain ⟨q₁, p₁, hq, h⟩ := bind_eq_ok.mp h
    obtain ⟨qs₁, p₂, hqs, h⟩ := bind_eq_ok.mp h
    cases h
    obtain ⟨⟨ts, hts, hmade⟩, hsame⟩ := ih hqs
    by_cases hop : q.op = op
    · rw [if_pos hop] at hq
      obtain ⟨e₁, p₃, he, hq⟩ := bind_eq_ok.mp hq
      cases hq
      obtain ⟨t, ht, hmade'⟩ := writeTree_ok hm he
      refine ⟨⟨t :: ts, ?_, hmade'.append hmade⟩, fun other ho => ?_⟩
      · simpa [hop] using hts.cons ht
      · simp [hop, Ne.symm ho, hsame other ho]
    · rw [if_neg hop] at hq
      cases hq
      refine ⟨⟨ts, by simpa [hop] using hts, hmade⟩, fun other ho => ?_⟩
      simp only [List.filter_cons, hsame other ho]

lemma applyBatch_ok (hm : u.MapsOnce) {b b' : Batch}
    (h : u.applyBatch tx (op.phase, op) b p = (.ok b', p')) :
    (∃ ts, u.Fulfils ((b.roots op).map (op, ·)) ((b'.roots op).map (op, ·)) ts ∧
        Made p p' (Written.orderAll ts)) ∧
      ∀ other, other ≠ op → b'.roots other = b.roots other := by
  obtain ⟨qs, p₁, hqs, h⟩ := bind_eq_ok.mp h
  cases h
  obtain ⟨⟨ts, hts, hmade⟩, hsame⟩ := mapM_pending_ok hm hqs
  refine ⟨⟨ts, ?_, hmade⟩, fun other ho => ?_⟩
  · rw [Batch.roots, Batch.roots, List.map_map, List.map_map]
    exact hts
  · rw [Batch.roots, Batch.roots, hsame other ho]

lemma mapM_applyBatch_ok (hm : u.MapsOnce) {bs bs' : List Batch}
    (h : bs.mapM (u.applyBatch tx (op.phase, op)) p = (.ok bs', p')) :
    (∃ ts, u.Fulfils ((bs.flatMap (Batch.roots op)).map (op, ·))
          ((bs'.flatMap (Batch.roots op)).map (op, ·)) ts ∧
        Made p p' (Written.orderAll ts)) ∧
      ∀ other, other ≠ op → bs'.flatMap (Batch.roots other) = bs.flatMap (Batch.roots other) := by
  induction bs generalizing p bs' with
  | nil =>
    cases h
    exact ⟨⟨[], .nil, .nil _⟩, fun _ _ => rfl⟩
  | cons b bs ih =>
    rw [List.mapM_cons] at h
    obtain ⟨b₁, p₁, hb, h⟩ := bind_eq_ok.mp h
    obtain ⟨bs₁, p₂, hbs, h⟩ := bind_eq_ok.mp h
    cases h
    obtain ⟨⟨ts, hts, hmade⟩, hsame⟩ := applyBatch_ok hm hb
    obtain ⟨⟨us, hus, hmade'⟩, hsame'⟩ := ih hbs
    refine ⟨⟨ts ++ us, ?_, ?_⟩, fun other ho => ?_⟩
    · rw [List.flatMap_cons, List.flatMap_cons, List.map_append, List.map_append]
      exact hts.append hus
    · rw [Written.orderAll_append]
      exact hmade.append hmade'
    · rw [List.flatMap_cons, List.flatMap_cons, hsame other ho, hsame' other ho]

/-- The plan of a commit is fulfilled by what the batches hold in the end. -/
lemma applyAll_ok (hm : u.MapsOnce) {bs : List Batch}
    (h : u.applyAll tx u.batches p = (.ok bs, p')) :
    ∃ forest, u.Fulfils u.plan (Batch.plan bs) forest ∧ Made p p' (Written.orderAll forest) := by
  have hphases : Phase.schedule =
      [(Operation.insert.phase, .insert), (Operation.update.phase, .update),
        (Operation.delete.phase, .delete)] := rfl
  rw [applyAll, hphases] at h
  obtain ⟨bs₁, p₁, h₁, h⟩ := bind_eq_ok.mp h
  obtain ⟨bs₂, p₂, h₂, h⟩ := bind_eq_ok.mp h
  obtain ⟨bs₃, p₃, h₃, h⟩ := bind_eq_ok.mp h
  cases h
  obtain ⟨⟨ts, hts, hmade₁⟩, hsame₁⟩ := mapM_applyBatch_ok hm h₁
  obtain ⟨⟨us, hus, hmade₂⟩, hsame₂⟩ := mapM_applyBatch_ok hm h₂
  obtain ⟨⟨vs, hvs, hmade₃⟩, hsame₃⟩ := mapM_applyBatch_ok hm h₃
  -- A phase finds its own entities as they were buffered, and leaves those of the others alone.
  rw [← hsame₂ _ (by decide), ← hsame₃ _ (by decide)] at hts
  rw [hsame₁ _ (by decide), ← hsame₃ _ (by decide)] at hus
  rw [hsame₂ _ (by decide), hsame₁ _ (by decide)] at hvs
  refine ⟨ts ++ (us ++ vs), ?_, ?_⟩
  · rw [← plan_batches, Batch.plan_eq, Batch.plan_eq]
    exact hts.append (hus.append hvs)
  · rw [Written.orderAll_append, Written.orderAll_append]
    exact hmade₁.append (hmade₂.append hmade₃)

/-! ### A commit that goes through -/

/-- A commit of batches that goes through has made all writes and closed the transaction. -/
lemma commitBatches_eq_ok {first : String} {batches : List Batch} {w w' : World} {c : Committed}
    (h : u.commitBatches tx first batches w = (.ok c, w')) :
    ∃ bs p closed, u.applyAll tx batches ⟨w, 0⟩ = (.ok bs, p) ∧
      tx.tryCommit p.world = (.ok closed, w') ∧ c = ⟨p.applied, bs.map Batch.inserted⟩ := by
  unfold commitBatches at h
  rcases hr : u.applyAndCommit tx first batches ⟨w, 0⟩ with ⟨halt | bs, p⟩
  · rw [hr] at h
    cases h
  · rw [hr] at h
    cases h
    obtain ⟨bs₁, p₁, hall, hr⟩ := bind_eq_ok.mp hr
    obtain ⟨_, p₂, hcommit, hr⟩ := bind_eq_ok.mp hr
    cases hr
    obtain ⟨closed, p₃, hcommit, hr⟩ := bind_eq_ok.mp hcommit
    cases hr
    obtain ⟨hclosed, happlied⟩ := Committing.ofStep_eq_ok hcommit
    exact ⟨bs, p₁, closed, hall, hclosed, by rw [happlied]⟩

/-- A commit that goes through has opened its transaction, made all writes and closed it again. -/
lemma commit_eq_ok {w w' : World} {c : Committed} (h : u.commit.1 w = (.ok c, w')) :
    ∃ tx w₁ bs p closed, u.openFor u.types w = (.ok tx, w₁) ∧
      u.applyAll tx u.batches ⟨w₁, 0⟩ = (.ok bs, p) ∧ tx.tryCommit p.world = (.ok closed, w') ∧
      c = ⟨p.applied, bs.map Batch.inserted⟩ := by
  rcases hbs : u.batches with _ | ⟨b, bs⟩
  · rw [commit_of_nil hbs] at h
    cases h
    refine ⟨.autocommit, w, [], ⟨w, 0⟩, .autocommit, ?_, rfl, rfl, rfl⟩
    rw [types, hbs, List.map_nil, openFor, participants_nil]
    rfl
  · rw [commit_of_cons hbs] at h
    obtain ⟨tx, w₁, hopen, h⟩ := bind_eq_ok.mp h
    obtain ⟨bs', p, closed, h⟩ := commitBatches_eq_ok h
    exact ⟨tx, w₁, bs', p, closed, hopen, hbs ▸ h⟩

lemma commitBatches_ok (hm : u.MapsOnce) {first : String} {w : World} {c : Committed}
    (h : (u.commitBatches tx first u.batches w).1 = .ok c) :
    ∃ forest, u.CarriesOut u.plan forest ∧
      (u.commitBatches tx first u.batches w).2.writes = w.writes ++ Written.orderAll forest ∧
      c.applied = (Written.orderAll forest).length := by
  obtain ⟨bs, p, closed, hall, hclosed, rfl⟩ := commitBatches_eq_ok (Prod.ext h rfl)
  obtain ⟨forest, hforest, hmade⟩ := applyAll_ok hm hall
  refine ⟨forest, hforest.carriesOut, ?_, ?_⟩
  · exact ((quiet_tryCommit tx).ok hclosed).trans hmade.writes
  · simpa using hmade.applied

/-- **The write plan of a commit.** A commit that goes through has made the writes of the buffered
entities and of all that hangs below them, tree by tree in the order of the plan, and no other. It
counts them, and they are as many as entities are reached along mapped navigations. -/
theorem commit_writes (hm : u.MapsOnce) {w : World} {c : Committed}
    (h : (u.commit.1 w).1 = .ok c) :
    ∃ forest, u.CarriesOut u.plan forest ∧
      (u.commit.1 w).2.writes = w.writes ++ Written.orderAll forest ∧
      c.applied = (Written.orderAll forest).length ∧
      c.applied = (u.plan.map fun x => u.reachable x.2.1 x.2.2).sum := by
  suffices hmade : ∃ forest, u.CarriesOut u.plan forest ∧
      (u.commit.1 w).2.writes = w.writes ++ Written.orderAll forest ∧
      c.applied = (Written.orderAll forest).length by
    obtain ⟨forest, hf, hw, ha⟩ := hmade
    exact ⟨forest, hf, hw, ha, ha.trans hf.length_orderAll⟩
  rcases hbs : u.batches with _ | ⟨b, bs⟩
  · have hcommit : u.commit.1 w = (.ok ⟨0, []⟩, w) := by simp [commit, commitBuffered, hbs]
    have hplan : u.plan = [] := by
      simp [plan, ← roots_batches, hbs]
    rw [hcommit] at h ⊢
    cases h
    rw [hplan]
    exact ⟨[], .nil, by simp [Written.orderAll], rfl⟩
  · have hcommit : u.commit.1 = u.openFor ((b :: bs).map (·.type.name)) >>= fun tx =>
        u.commitBatches tx b.type.name u.batches := by
      simp only [commit, commitBuffered, hbs]
    rcases hr : u.commit.1 w with ⟨e | c', w'⟩
    · rw [hr] at h; cases h
    · rw [hr] at h
      cases h
      rw [hcommit] at hr
      obtain ⟨tx, w₁, hopen, hr⟩ := bind_eq_ok.mp hr
      have hquiet : Quiet (u.openFor ((b :: bs).map (·.type.name))) := by
        unfold openFor
        split
        · exact quiet_begin _
        · exact Quiet.pure _
      have hok : (u.commitBatches tx b.type.name u.batches w₁).1 = .ok c := by rw [hr]
      have hmade := commitBatches_ok hm hok
      rw [hr, hquiet.ok hopen] at hmade
      exact hmade

end UnitOfWork

namespace Census

lemma registry_mapsOnce : registry.MapsOnce := by
  simp [UnitOfWork.MapsOnce, registry]

/-- Tables without rows. -/
def vacant : World where
  backends := [(.memory "census", .journal none)]

/-- The person is created first, with a key of its own and the identification with that of the
person. -/
theorem vacant_registry_writes : ∃ c, (registry.commit.1 vacant).1 = .ok c ∧ c.applied = 2 ∧
    (registry.commit.1 vacant).2.writes =
      [⟨.insert, "Person", [("personId", .int 0), ("firstname", .text "Eduard")]⟩,
        ⟨.insert, "Identification",
          [("identificationId", .int 0), ("personId", .int 1), ("number", .text "123-456")]⟩] ∧
    ∃ forest, registry.CarriesOut registry.plan forest ∧
      (registry.commit.1 vacant).2.writes = vacant.writes ++ Written.orderAll forest := by
  obtain ⟨c, h, happlied⟩ : ∃ c, (registry.commit.1 vacant).1 = .ok c ∧ c.applied = 2 :=
    ⟨_, rfl, rfl⟩
  obtain ⟨forest, hforest, hwrites, -, -⟩ := UnitOfWork.commit_writes registry_mapsOnce h
  exact ⟨c, h, happlied, rfl, forest, hforest, hwrites⟩

end Census

end EntityStore
