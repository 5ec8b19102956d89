import EntityStore.Proofs.Declared
import EntityStore.Proofs.Participation
import EntityStore.Proofs.Trace

/-!
A commit that fails leaves nothing behind. Where all stores that take part keep their entities in
tables of one journal, every write is journaled, and what the failing one did is journaled or
nothing; so the rollback finds its way back to the tables as they were.
-/

namespace EntityStore

open Fallible

variable {Γ : Declarations} {b : String} {tables : String → List Entity}

/-! ### One write -/

/-- The adapter keeps its entities in a table of the journal, and reports it as its backend. -/
structure Adapter.Joined (b : String) (a : Adapter) : Prop where
  storage : ∃ table, a.storage = .memory ⟨table, some b⟩
  backend : a.backend = some (.memory b)

lemma MemoryTable.triple_write {α : Type} {t : MemoryTable} (ht : t.journalName = some b)
    {f : List Entity → Table.Outcome α} (hf : ∀ rows, (f rows).Restores rows) :
    Triple (World.Journaled b tables) (t.write ⟨some (.memory b)⟩ f)
      (fun _ w => w.Journaled b tables) (fun _ w => w.Journaled b tables) := by
  intro w hw
  have h := hw.write ht (hf (w.rows t.name))
  rcases hx : t.write ⟨some (.memory b)⟩ f w with ⟨err | a, w'⟩
  · rw [hx] at h; exact h
  · rw [hx] at h; exact h

namespace Adapter

variable {a : Adapter} {e e' : Entity}

lemma triple_announce (op : Operation) :
    Triple (World.Journaled b tables) (a.announce op e) (fun _ w => w.Journaled b tables)
      (fun _ w => w.Journaled b tables) := by
  intro w hw
  rcases a.announce_cases op e w with ⟨err, h⟩ | ⟨err | x, guard, key, h⟩
  · rw [h]; exact hw
  · rw [h]; exact hw.note _
  · rw [h]; exact hw.note _

/-- A write of a well-typed entity keeps the way back, also where it fails. -/
lemma triple_journaled (ha : a.Declared Γ) (hj : a.Joined b) (hk : a.schema.KeyNotFloat a.type)
    (he : Γ.Has a.type.name e) (op : Operation) :
    Triple (World.Journaled b tables) (a.write ⟨some (.memory b)⟩ op e)
      (fun _ w => w.Journaled b tables) (fun _ w => w.Journaled b tables) := by
  obtain ⟨table, hs⟩ := hj.storage
  have hT : a.type = (Γ.of a.type.name).type := ha.type
  cases op with
  | insert =>
    refine (triple_announce .insert).bind fun _ => ?_
    rw [hs]
    refine MemoryTable.triple_write rfl fun rows => ?_
    rw [hT] at hk ⊢
    exact Table.create_restores hk
  | update =>
    refine Triple.bind (Q := fun _ w => w.Journaled b tables) ?_ fun _ => Triple.pure fun _ hw => hw
    refine (triple_announce .update).bind fun _ => ?_
    rw [hs]
    refine MemoryTable.triple_write rfl fun rows => ?_
    have hl := ha.schema
    rw [hT] at hl ⊢
    exact Table.update_restores hl he.scalars
  | delete =>
    refine Triple.bind (Q := fun _ w => w.Journaled b tables) ?_ fun _ => Triple.pure fun _ hw => hw
    refine (triple_announce .delete).bind fun _ => ?_
    rw [hs]
    exact MemoryTable.triple_write rfl fun rows => Table.delete_restores

end Adapter

/-! ### A commit -/

namespace UnitOfWork

variable {u : UnitOfWork}

/-- All that the unit of work holds is declared, and the stores that take part keep their entities
in tables of one journal, under keys that equal themselves. -/
structure Joined (Γ : Declarations) (b : String) (u : UnitOfWork) : Prop where
  declared : u.Declared Γ
  joined : ∀ s ∈ u.stores, u.TakesPart s.type.name → s.adapter.Joined b
  keys : ∀ s ∈ u.stores, u.TakesPart s.type.name → s.adapter.schema.KeyNotFloat s.type

/-- A well-typed entity of a type that takes part. -/
structure Writable (Γ : Declarations) (u : UnitOfWork) (T : EntityType) (e : Entity) : Prop where
  type : T = Γ.type T.name
  has : Γ.Has T.name e
  takesPart : u.TakesPart T.name

lemma Joined.triple_write (hu : u.Joined Γ b) {T : EntityType} {e : Entity}
    (he : u.Writable Γ T e) (phase : Phase) (op : Operation) :
    Triple (fun p => p.world.Journaled b tables) (u.write ⟨some (.memory b)⟩ phase op T e)
      (fun e' p => p.world.Journaled b tables ∧ u.Writable Γ T e')
      (fun _ p => p.world.Journaled b tables) := by
  refine (Committing.triple_ofExcept (fun _ _ hp => hp) _).bind_of fun s hs => ?_
  obtain ⟨hmem, hname⟩ := store?_eq_some (store_eq_ok hs)
  have htakes : u.TakesPart s.type.name := hname ▸ he.takesPart
  have hadapter := (hu.declared.stores s hmem).adapter
  have hhas : Γ.Has s.adapter.type.name e := hname ▸ he.has
  have hjournaled : Triple (World.Journaled b tables) (s.adapter.write ⟨some (.memory b)⟩ op e)
      (fun _ w => w.Journaled b tables) (fun _ w => w.Journaled b tables) :=
    Adapter.triple_journaled hadapter (hu.joined s hmem htakes) (hu.keys s hmem htakes) hhas op
  have hstep := hjournaled.and_of_ok fun w e' w' h => (Adapter.write_ok h).2.has hadapter hhas
  refine (Committing.triple_ofStep hstep).bind_of fun e' he' => ?_
  have hcount : Triple (fun p : Progress => p.world.Journaled b tables)
      (modify fun p => { p with applied := p.applied + 1 } : Committing PUnit)
      (fun _ p => p.world.Journaled b tables) (fun _ p => p.world.Journaled b tables) :=
    Triple.modify fun p hp => hp
  refine hcount.bind fun _ => ?_
  exact Triple.pure fun p hp => ⟨hp, he.type, hname ▸ he', he.takesPart⟩

/-- The writes of the commit keep the way back and write nothing but well-typed entities of types
that take part. -/
lemma Joined.keeps (hu : u.Joined Γ b) :
    u.Keeps ⟨some (.memory b)⟩ (fun p => p.world.Journaled b tables) (u.Writable Γ)
      (fun _ p => p.world.Journaled b tables) where
  halt _ _ hp := hp
  write phase op T e he := hu.triple_write he phase op
  child T e he r hr hreg c hc := by
    obtain ⟨hmem, hname⟩ := mem_relationsOf.mp hr
    refine ⟨(hu.declared.relations r hmem).child, hu.declared.has_child he.has hr hc, ?_⟩
    exact .child hmem (hname ▸ he.takesPart) hreg
  assign T e field v e' he h := by
    obtain ⟨hT, hhas, htakes⟩ := he
    rw [hT] at h
    exact ⟨hT, hhas.assign h, htakes⟩
  collect T e he r hr es hes := by
    refine ⟨he.type, ?_, he.takesPart⟩
    exact he.has.withCollection (hu.declared.navigation hr) fun c hc => (hes c hc).has

lemma Joined.ofBatch (hu : u.Joined Γ b) {batch : Batch} (hb : batch ∈ u.batches) :
    Keeps.OfBatch (u.Writable Γ) batch := by
  have htakes := takesPart_of_batch hb
  obtain ⟨s, hs, rfl⟩ := List.mem_map.mp hb
  have hd := hu.declared.stores s (List.mem_of_mem_filter hs)
  exact fun p hp => ⟨hd.adapter.type, hd.pending p hp, htakes⟩

/-- The commit runs in one transaction on the journal. -/
lemma Joined.sharedBackend (hu : u.Joined Γ b) (hne : u.batches ≠ []) :
    u.sharedBackend (u.participants (u.batches.map (·.type.name))) = some (.memory b) := by
  have htypes : ∀ T ∈ u.batches.map (·.type.name), u.TakesPart T := by
    intro T hT
    obtain ⟨batch, hb, rfl⟩ := List.mem_map.mp hT
    exact takesPart_of_batch hb
  have hpre := prefix_participants (u := u) (u.batches.map (·.type.name))
  refine sharedBackend_eq ?_ fun T hT => ?_
  · intro h
    rw [h, List.prefix_nil] at hpre
    exact hne (by simpa using hpre)
  · have htakes := takesPart_of_mem_participants htypes T hT
    obtain ⟨s, hs⟩ := htakes.registered
    obtain ⟨hmem, rfl⟩ := store?_eq_some hs
    rw [hs]
    exact (hu.joined s hmem htakes).backend

/-- Writing in an open transaction fails only before the end, and is taken back. -/
lemma Joined.commitBatches_error (hu : u.Joined Γ b) {first : String} {w : World} {err : Error}
    (hw : w.Journaled b tables)
    (h : (u.commitBatches ⟨some (.memory b)⟩ first u.batches w).1 = .error err) :
    (∃ applied entity phase source, err = .commit applied true entity phase source) ∧
      (u.commitBatches ⟨some (.memory b)⟩ first u.batches w).2.rows = tables ∧
      (u.commitBatches ⟨some (.memory b)⟩ first u.batches w).2.backends.get? (.memory b) =
        some (.journal none) := by
  have hcommit : Triple (fun p => p.world.Journaled b tables)
      (u.applyAndCommit ⟨some (.memory b)⟩ first u.batches) (fun _ _ => True)
      (fun _ p => p.world.Journaled b tables) := by
    refine (hu.keeps.applyAll fun batch hb => hu.ofBatch hb).bind_of fun bs _ => ?_
    refine Triple.bind (Q := fun _ _ => True) ?_ fun _ => Triple.pure fun _ _ => trivial
    refine Triple.bind (Q := fun _ _ => True) ?_ fun _ => Triple.pure fun _ _ => trivial
    -- The journal takes every commit, so what fails is a write, before the transaction is closed.
    refine Committing.triple_ofStep (Q := fun _ _ => True)
      (F := fun _ w => w.Journaled b tables) fun w hw => ?_
    obtain ⟨w', hw'⟩ := World.commit_journal hw
    rw [hw']
    trivial
  have hfinal := hcommit ⟨w, 0⟩ hw
  unfold commitBatches at h ⊢
  rcases hr : u.applyAndCommit ⟨some (.memory b)⟩ first u.batches ⟨w, 0⟩ with ⟨halt | bs, p⟩
  · rw [hr] at hfinal h
    obtain ⟨w', hroll, hrows, hclosed⟩ := World.rollback_journal hfinal
    have hundo : undoWrites ⟨some (.memory b)⟩ p.world = (true, w') := by
      simp [undoWrites, Transaction.isActive, hroll]
    simp only [hundo, Except.error.injEq] at h ⊢
    exact ⟨⟨_, _, _, _, h.symm⟩, hrows, hclosed⟩
  · rw [hr] at h
    cases h

/-- **A commit that fails leaves nothing behind.** All tables hold the rows they held, the failure
says that it was rolled back, the buffers are empty, and the journal has no transaction open, so
another can begin. -/
theorem commit_atomic (hu : u.Joined Γ b) {w : World} {err : Error}
    (hb : w.backends.get? (.memory b) = some (.journal none))
    (h : (u.commit.1 w).1 = .error err) :
    (∀ table, (u.commit.1 w).2.rows table = w.rows table) ∧
      (∃ applied entity phase source, err = .commit applied true entity phase source) ∧
      (∀ s ∈ u.commit.2.stores, s.pending = []) ∧
      (u.commit.1 w).2.backends.get? (.memory b) = some (.journal none) ∧
      ∃ w', Transaction.begin (.memory b) (u.commit.1 w).2 = (.ok ⟨some (.memory b)⟩, w') := by
  have hempty : ∀ s ∈ u.commit.2.stores, s.pending = [] := by
    intro s hs
    obtain ⟨t, -, rfl⟩ := List.mem_map.mp hs
    rfl
  obtain ⟨w₁, hbegin, hw₁⟩ := World.begin_journal hb
  have hcommit : ∃ first, u.commit.1 w =
      u.commitBatches ⟨some (.memory b)⟩ first u.batches w₁ := by
    rcases hbs : u.batches with _ | ⟨batch, bs⟩
    · simp only [commit, commitBuffered, hbs] at h
      cases h
    · refine ⟨batch.type.name, ?_⟩
      have hopen : u.openFor ((batch :: bs).map (·.type.name)) w =
          (.ok ⟨some (.memory b)⟩, w₁) := by
        rw [openFor, ← hbs, hu.sharedBackend (by simp [hbs])]
        exact hbegin
      simp only [commit, commitBuffered, hbs]
      exact bind_of_ok hopen
  obtain ⟨first, hrun⟩ := hcommit
  rw [hrun] at h ⊢
  obtain ⟨herr, hrows, hclosed⟩ := hu.commitBatches_error hw₁ h
  obtain ⟨w', hagain, -⟩ := World.begin_journal hclosed
  exact ⟨fun table => by rw [hrows], herr, hempty, hclosed, w', hagain⟩

end UnitOfWork

namespace Census

lemma registry_joined : registry.Joined types "census" where
  declared := registry_declared
  joined s hs _ := by
    rcases List.mem_pair.mp hs with rfl | rfl
    · exact ⟨⟨"people", rfl⟩, rfl⟩
    · exact ⟨⟨"numbers", rfl⟩, rfl⟩
  keys s hs _ := by
    rcases List.mem_pair.mp hs with rfl | rfl <;>
    · intro f hf _
      simp only [DataStore.type, people, numbers, adapter, Declaration.type, person,
        identification, List.map_cons, List.map_nil, List.mem_cons, List.not_mem_nil] at hf
      rcases hf with rfl | rfl | hf <;> simp_all [FieldKind.type]

/-- The last person has a key after which the next one fits no identification. -/
def crowded : World where
  tables := [("people", [⟨[("personId", .int 2147483647), ("firstname", .text "Hermann")], []⟩])]
  backends := [(.memory "census", .journal none)]

/-- The person is stored, the identification cannot be, and the person is taken out again. -/
theorem crowded_registry_atomic :
    (registry.commit.1 crowded).1 = .error (.commit 1 true "Identification" .insert
      (.materialization "personId" (.int 2147483648))) ∧
    (registry.commit.1 crowded).2.rows "people" = crowded.rows "people" := by
  have h : (registry.commit.1 crowded).1 = .error (.commit 1 true "Identification" .insert
      (.materialization "personId" (.int 2147483648))) := by rfl
  exact ⟨h, (UnitOfWork.commit_atomic registry_joined rfl h).1 "people"⟩

end Census

end EntityStore
