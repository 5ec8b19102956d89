import EntityStore.Proofs.Buffers
import EntityStore.Proofs.WritePlan

/-!
The order of recording. A commit makes the writes of one kind after those of another, and goes
through the stores in their own order; so it takes from the buffers, for each type and each kind of
write, the entities in the order of their recording, and nothing else of how they were recorded.
-/

namespace EntityStore

/-! ### Two runs -/

namespace Fallible

variable {σ ε α β γ δ : Type}

/-- From every state the two come to the same state, with the same error or with related results. -/
def Alike (R : α → β → Prop) (x : Fallible σ ε α) (y : Fallible σ ε β) : Prop :=
  ∀ s, (∃ a b t, x s = (.ok a, t) ∧ y s = (.ok b, t) ∧ R a b) ∨
    ∃ e t, x s = (.error e, t) ∧ y s = (.error e, t)

variable {R : α → β → Prop} {S : γ → δ → Prop} {x : Fallible σ ε α} {y : Fallible σ ε β}

lemma Alike.pure {a : α} {b : β} (h : R a b) :
    Alike R (Pure.pure a : Fallible σ ε α) (Pure.pure b) :=
  fun s => .inl ⟨a, b, s, rfl, rfl, h⟩

lemma Alike.refl (x : Fallible σ ε α) : Alike Eq x x := by
  intro s
  rcases hx : x s with ⟨e | a, t⟩
  · exact .inr ⟨e, t, rfl, rfl⟩
  · exact .inl ⟨a, a, t, rfl, rfl, rfl⟩

lemma Alike.bind {f : α → Fallible σ ε γ} {g : β → Fallible σ ε δ} (h : Alike R x y)
    (hf : ∀ a b, R a b → Alike S (f a) (g b)) : Alike S (x >>= f) (y >>= g) := by
  intro s
  rcases h s with ⟨a, b, t, hx, hy, hab⟩ | ⟨e, t, hx, hy⟩
  · rw [bind_of_ok hx, bind_of_ok hy]
    exact hf a b hab t
  · exact .inr ⟨e, t, bind_of_error hx, bind_of_error hy⟩

/-- To make something of one result leaves the runs alike. -/
lemma Alike.map_left {f : α → γ} {Q : γ → β → Prop} (h : Alike R x y)
    (hf : ∀ a b, R a b → Q (f a) b) : Alike Q (x >>= fun a => Pure.pure (f a)) y := by
  intro s
  rcases h s with ⟨a, b, t, hx, hy, hab⟩ | ⟨e, t, hx, hy⟩
  · exact .inl ⟨f a, b, t, bind_of_ok hx, hy, hf a b hab⟩
  · exact .inr ⟨e, t, bind_of_error hx, hy⟩

/-- Two that run as a third does run alike. -/
lemma Alike.join {z : Fallible σ ε γ} {Q : α → γ → Prop} {P : α → β → Prop} {R' : β → γ → Prop}
    (h : Alike Q x z) (h' : Alike R' y z) (hP : ∀ a b c, Q a c → R' b c → P a b) :
    Alike P x y := by
  intro s
  rcases h s with ⟨a, c, t, hx, hz, hac⟩ | ⟨e, t, hx, hz⟩
  · rcases h' s with ⟨b, c', t', hy, hz', hbc⟩ | ⟨e, t', hy, hz'⟩
    · cases hz.symm.trans hz'
      exact .inl ⟨a, b, t, hx, hy, hP a b c hac hbc⟩
    · cases hz.symm.trans hz'
  · rcases h' s with ⟨b, c', t', hy, hz', hbc⟩ | ⟨e', t', hy, hz'⟩
    · cases hz.symm.trans hz'
    · cases hz.symm.trans hz'
      exact .inr ⟨e, t, hx, hy⟩

lemma Alike.mapM {f : α → Fallible σ ε γ} {g : β → Fallible σ ε δ} {as : List α} {bs : List β}
    (h : List.Forall₂ R as bs) (hf : ∀ a b, R a b → Alike S (f a) (g b)) :
    Alike (List.Forall₂ S) (as.mapM f) (bs.mapM g) := by
  induction h with
  | nil => exact Alike.pure .nil
  | cons hab _ ih =>
    rw [List.mapM_cons, List.mapM_cons]
    refine (hf _ _ hab).bind fun c d hcd => ih.bind fun cs ds hcds => ?_
    exact Alike.pure (.cons hcd hcds)

lemma Alike.foldlM {f : α → γ → Fallible σ ε α} {g : β → γ → Fallible σ ε β}
    (hf : ∀ a b c, R a b → Alike R (f a c) (g b c)) (cs : List γ) {a : α} {b : β} (h : R a b) :
    Alike R (cs.foldlM f a) (cs.foldlM g b) := by
  induction cs generalizing a b with
  | nil => exact Alike.pure h
  | cons c cs ih =>
    rw [List.foldlM_cons, List.foldlM_cons]
    exact (hf a b c h).bind fun a' b' h' => ih h'

end Fallible

open Fallible

/-! ### Buffers by kind of write -/

/-- The entities of one kind of write in a buffer. -/
def Pending.ofKind (op : Operation) (ps : List Pending) : List Entity :=
  (ps.filter (·.op = op)).map Pending.entity

namespace Pending

variable {op : Operation} {p : Pending} {ps : List Pending}

lemma ofKind_cons (op : Operation) (p : Pending) (ps : List Pending) :
    ofKind op (p :: ps) = if p.op = op then p.entity :: ofKind op ps else ofKind op ps := by
  by_cases h : p.op = op <;> simp [ofKind, h]

lemma ofKind_append (op : Operation) (ps qs : List Pending) :
    ofKind op (ps ++ qs) = ofKind op ps ++ ofKind op qs := by
  simp [ofKind]

/-- A buffer is empty where there is nothing of any kind in it. -/
lemma eq_nil_of_ofKind (h : ∀ op, ofKind op ps = []) : ps = [] := by
  rcases ps with _ | ⟨p, ps⟩
  · rfl
  · have hp := h p.op
    rw [ofKind_cons, if_pos rfl] at hp
    cases hp

/-- To go through a buffer with the writes of one kind is to go through its entities of that kind;
those of the others stay. -/
lemma alike_mapM {σ ε : Type} (op : Operation) (write : Entity → Fallible σ ε Entity)
    (ps : List Pending) :
    Alike (fun qs es => ofKind op qs = es ∧ ∀ other, other ≠ op → ofKind other qs = ofKind other ps)
      (ps.mapM fun p =>
        if p.op = op then return { p with entity := ← write p.entity } else return p)
      ((ofKind op ps).mapM write) := by
  induction ps with
  | nil => exact Alike.pure ⟨rfl, fun _ _ => rfl⟩
  | cons p ps ih =>
    rw [List.mapM_cons, ofKind_cons]
    by_cases hp : p.op = op
    · rw [if_pos hp, if_pos hp, List.mapM_cons]
      have hhead : Alike (fun q e => q = { p with entity := e })
          (write p.entity >>= fun e => pure { p with entity := e }) (write p.entity) :=
        (Alike.refl _).map_left fun a b h => h ▸ rfl
      refine hhead.bind fun q e hq => ih.bind fun qs es hqs => Alike.pure ⟨?_, fun other ho => ?_⟩
      · rw [hq, ofKind_cons, if_pos hp, hqs.1]
      · rw [hq, ofKind_cons, ofKind_cons, hqs.2 other ho]
        simp [hp, ho.symm]
    · rw [if_neg hp, if_neg hp]
      refine ih.map_left fun qs es hqs => ⟨?_, fun other ho => ?_⟩
      · rw [ofKind_cons, if_neg hp, hqs.1]
      · rw [ofKind_cons, ofKind_cons, hqs.2 other ho]

end Pending

/-- Batches of one type with the same entities of each kind in the same order. -/
structure Batch.Alike (b b' : Batch) : Prop where
  type : b.type = b'.type
  ofKind : ∀ op, Pending.ofKind op b.pending = Pending.ofKind op b'.pending

namespace UnitOfWork

variable {u : UnitOfWork} {tx : Transaction} {bs bs' : List Batch}

lemma applyBatch_alike (step : Phase × Operation) {b b' : Batch} (h : b.Alike b') :
    Alike Batch.Alike (u.applyBatch tx step b) (u.applyBatch tx step b') := by
  obtain ⟨T, ps⟩ := b
  obtain ⟨T', ps'⟩ := b'
  obtain rfl : T = T' := h.type
  have hps := Pending.alike_mapM step.2 (u.writeTree tx step.1 step.2 T) ps
  have hps' := Pending.alike_mapM step.2 (u.writeTree tx step.1 step.2 T) ps'
  rw [← h.ofKind step.2] at hps'
  refine Alike.bind (R := fun qs qs' => ∀ op, Pending.ofKind op qs = Pending.ofKind op qs')
    (hps.join hps' fun qs qs' es hqs hqs' op => ?_) fun qs qs' hqs => Alike.pure ⟨rfl, hqs⟩
  by_cases hop : op = step.2
  · rw [hop, hqs.1, hqs'.1]
  · rw [hqs.2 op hop, hqs'.2 op hop]
    exact h.ofKind op

lemma applyAll_alike (h : List.Forall₂ Batch.Alike bs bs') :
    Alike (List.Forall₂ Batch.Alike) (u.applyAll tx bs) (u.applyAll tx bs') :=
  Alike.foldlM (fun _ _ step h => Alike.mapM h fun _ _ hb => applyBatch_alike step hb)
    Phase.schedule h

lemma map_inserted_alike (h : List.Forall₂ Batch.Alike bs bs') :
    bs.map Batch.inserted = bs'.map Batch.inserted := by
  have hone : ∀ b b' : Batch, b.Alike b' → b.inserted = b'.inserted :=
    fun b b' hb => Prod.ext (congrArg EntityType.name hb.type) (hb.ofKind .insert)
  induction h with
  | nil => rfl
  | cons hb _ ih => rw [List.map_cons, List.map_cons, ih, hone _ _ hb]

/-- Alike batches are committed with the same writes and the same result. -/
lemma commitBatches_alike (h : List.Forall₂ Batch.Alike bs bs') (first : String) :
    u.commitBatches tx first bs = u.commitBatches tx first bs' := by
  have hcommit : Alike (List.Forall₂ Batch.Alike) (u.applyAndCommit tx first bs)
      (u.applyAndCommit tx first bs') :=
    (applyAll_alike h).bind fun cs cs' hcs => (Alike.refl _).bind fun _ _ _ => Alike.pure hcs
  funext w
  unfold commitBatches
  rcases hcommit { world := w } with ⟨cs, cs', p, hx, hy, hcs⟩ | ⟨halt, p, hx, hy⟩
  · rw [hx, hy]
    dsimp only
    rw [map_inserted_alike hcs]
  · rw [hx, hy]

/-- Units of work that differ in their buffers, but not in the entities of any kind in them, are
committed alike. -/
lemma commit_alike {v : UnitOfWork} (hclear : u.clear = v.clear)
    (h : List.Forall₂ Batch.Alike u.batches v.batches) : u.commit = v.commit := by
  have hbuffered : u.commitBuffered = v.commitBuffered := by
    -- The buffers also decide which stores take part, but only through the types of the batches.
    have htypes : u.batches.map (·.type.name) = v.batches.map (·.type.name) := by
      generalize u.batches = bs, v.batches = bs' at h
      induction h with
      | nil => rfl
      | cons hb _ ih => rw [List.map_cons, List.map_cons, ih, hb.type]
    unfold commitBuffered
    rw [← openFor_clear u, ← openFor_clear v, hclear]
    have hcommit : ∀ tx first,
        u.commitBatches tx first u.batches = v.commitBatches tx first v.batches := by
      intro tx first
      rw [commitBatches_alike h, ← commitBatches_clear u, ← commitBatches_clear v, hclear]
    generalize hbs : u.batches = bs, hbs' : v.batches = bs' at h htypes hcommit
    cases h with
    | nil => rfl
    | cons hb _ => simp only [htypes, hcommit, hb.type]
  rw [commit, commit, hbuffered, hclear]

end UnitOfWork

/-! ### Recordings -/

/-- A call that buffers an entity. -/
structure Recording where
  op : Operation
  type : EntityType
  entity : Entity

/-- The entities of a type that are recorded for one kind of write, in their order. -/
def Recording.among (cs : List Recording) (name : String) (op : Operation) : List Entity :=
  (cs.filter fun c => c.type.name = name ∧ c.op = op).map Recording.entity

/-- What a store has in its buffer after some recordings. -/
def DataStore.receive (cs : List Recording) (s : DataStore) : DataStore :=
  { s with pending := s.pending ++
      (cs.filter (·.type.name = s.type.name)).map fun c => ⟨c.op, c.entity⟩ }

lemma DataStore.receive_cons (c : Recording) (cs : List Recording) (s : DataStore) :
    (s.receive [c]).receive cs = s.receive (c :: cs) := by
  have htype : (s.receive [c]).type = s.type := rfl
  rw [receive, htype]
  by_cases h : c.type.name = s.type.name <;> simp [receive, h]

lemma DataStore.ofKind_receive (cs : List Recording) (s : DataStore) (op : Operation) :
    Pending.ofKind op (s.receive cs).pending =
      Pending.ofKind op s.pending ++ Recording.among cs s.type.name op := by
  rw [receive, Pending.ofKind_append, Recording.among]
  simp [Pending.ofKind, List.filter_map, List.filter_filter, Function.comp_def, and_comm]

namespace UnitOfWork

/-- Buffer an entity, if its type is registered. -/
def record (u : UnitOfWork) (c : Recording) : UnitOfWork :=
  match u.buffer c.op c.type c.entity with
  | .ok u' => u'
  | .error _ => u

/-- Buffer entities one after another. -/
def recordAll (u : UnitOfWork) (cs : List Recording) : UnitOfWork := cs.foldl record u

variable {u : UnitOfWork}

lemma record_eq (u : UnitOfWork) (c : Recording) :
    u.record c = { u with stores := u.stores.map (DataStore.receive [c]) } := by
  have hone : ∀ s : DataStore, s.receive [c] =
      if s.type.name = c.type.name then s.buffer c.op c.entity else s := by
    intro s
    by_cases h : s.type.name = c.type.name
    · simp [DataStore.receive, DataStore.buffer, h]
    · simp [DataStore.receive, Ne.symm h, h]
  unfold record buffer modifyStore store
  rcases hs : u.store? c.type.name with _ | s
  · have hnone : u.stores.map (DataStore.receive [c]) = u.stores := by
      refine (List.map_congr_left fun s hs' => ?_).trans (List.map_id _)
      have hname : s.type.name ≠ c.type.name := by
        simpa using List.find?_eq_none.mp hs s hs'
      rw [hone, if_neg hname, id]
    rw [hnone]
    rfl
  · rw [funext hone]
    rfl

lemma recordAll_eq (u : UnitOfWork) (cs : List Recording) :
    u.recordAll cs = { u with stores := u.stores.map (DataStore.receive cs) } := by
  induction cs generalizing u with
  | nil =>
    have hid : DataStore.receive [] = id := by
      funext s
      simp [DataStore.receive]
    rw [hid, List.map_id]
    rfl
  | cons c cs ih =>
    have hcons : DataStore.receive cs ∘ DataStore.receive [c] = DataStore.receive (c :: cs) :=
      funext fun s => s.receive_cons c cs
    rw [recordAll, List.foldl_cons, record_eq]
    refine (ih _).trans ?_
    rw [List.map_map, hcons]

/-- **The order of recording across types and kinds of write does not matter.** Two sequences of
recordings, each with the same entities in the same order for every type and every kind of write,
are committed alike: with the same writes in the same order, to the same tables, with the same
result, whether the commit goes through or not. -/
theorem commit_recordAll {cs cs' : List Recording}
    (h : ∀ name op, Recording.among cs name op = Recording.among cs' name op) :
    (u.recordAll cs).commit = (u.recordAll cs').commit := by
  refine commit_alike ?_ ?_
  · simp only [recordAll_eq, clear, List.map_map]
    rfl
  · have hkinds : ∀ (s : DataStore) op, Pending.ofKind op (s.receive cs).pending =
        Pending.ofKind op (s.receive cs').pending := by
      intro s op
      rw [DataStore.ofKind_receive, DataStore.ofKind_receive, h]
    have hempty : ∀ s : DataStore, (s.receive cs).pending = [] ↔ (s.receive cs').pending = [] := by
      refine fun s => ⟨fun hs => ?_, fun hs => ?_⟩
      · exact Pending.eq_nil_of_ofKind fun op => by rw [← hkinds, hs]; rfl
      · exact Pending.eq_nil_of_ofKind fun op => by rw [hkinds, hs]; rfl
    rw [recordAll_eq, recordAll_eq]
    unfold batches
    dsimp only
    generalize u.stores = stores
    induction stores with
    | nil => exact .nil
    | cons s stores ih =>
      rw [List.map_cons, List.map_cons]
      by_cases hs : (s.receive cs).pending = []
      · rw [List.filter_cons_of_neg (by simp [hs]),
          List.filter_cons_of_neg (by simp [(hempty s).mp hs])]
        exact ih
      · have hs' : (s.receive cs').pending ≠ [] := fun hs' => hs ((hempty s).mpr hs')
        rw [List.filter_cons_of_pos (by simp [hs]), List.filter_cons_of_pos (by simp [hs'])]
        exact .cons ⟨rfl, hkinds s⟩ ih

end UnitOfWork

namespace Census

/-- An identification to be removed, which is not stored. -/
def lost : Entity :=
  ⟨[("identificationId", .int 7), ("personId", .int 1), ("number", .text "654-321")], []⟩

def removal : Recording := ⟨.delete, identification.type, lost⟩

def arrival : Recording := ⟨.insert, person.type, eduard⟩

/-- The removal is made after the arrival, wherever it was recorded. -/
theorem interleaved_alike :
    (∀ name op, Recording.among [removal, arrival] name op =
      Recording.among [arrival, removal] name op) ∧
    (registry.clear.recordAll [removal, arrival]).commit =
      (registry.clear.recordAll [arrival, removal]).commit ∧
    ∃ c, ((registry.clear.recordAll [removal, arrival]).commit.1 vacant).1 = .ok c ∧
      c.applied = 3 := by
  have h : ∀ name op, Recording.among [removal, arrival] name op =
      Recording.among [arrival, removal] name op := by
    intro name op
    cases op <;> simp [Recording.among, List.filter_cons, removal, arrival]
  exact ⟨h, UnitOfWork.commit_recordAll h, _, rfl, rfl⟩

end Census

end EntityStore
