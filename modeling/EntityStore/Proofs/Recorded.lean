import EntityStore.Proofs.Growth

/-!
What a commit of inserts leaves behind. When it goes through, the tables have grown by all the trees
of all the batches, and what it reports as inserted are these trees in the order in which they were
buffered.
-/

namespace EntityStore

open Fallible

namespace UnitOfWork

/-! ### All trees -/

/-- A buffered insert and what became of it. -/
structure Recorded (u : UnitOfWork) (Γ : Declarations) (T : EntityType) (q q' : Pending) :
    Prop where
  op : q'.op = .insert
  inserted : u.Inserted T q.entity q'.entity
  has : Γ.Has T.name q'.entity

end UnitOfWork

/-- The entities of a batch, each with its type. -/
def Batch.trees (b : Batch) : List (EntityType × Entity) :=
  b.pending.map fun q => (b.type, q.entity)

namespace UnitOfWork

variable {u : UnitOfWork} {Γ : Declarations} {tx : Transaction} {T : EntityType}
  {b b' : Batch} {bs bs' : List Batch} {p p' : Progress}

lemma Relational.mapM_recorded (hu : u.Relational Γ) (hT : T = Γ.type T.name)
    {qs qs' : List Pending} (hq : ∀ q ∈ qs, q.op = .insert ∧ Γ.Has T.name q.entity)
    (hw : u.WellKeyed Γ p.world)
    (h : qs.mapM (fun q : Pending => if q.op = .insert then do
        return { q with entity := ← u.writeTree tx .insert .insert T q.entity }
      else return q : Pending → Committing Pending) p = (.ok qs', p')) :
    List.Forall₂ (u.Recorded Γ T) qs qs' ∧
      u.Grew Γ (qs'.flatMap fun q => u.nodes T q.entity) p.world p'.world := by
  induction qs generalizing p qs' with
  | nil =>
    cases h
    exact ⟨.nil, .nil hw⟩
  | cons q qs ih =>
    rw [List.mapM_cons] at h
    obtain ⟨q₁, p₁, hq₁, h⟩ := bind_eq_ok.mp h
    obtain ⟨qs₁, p₂, hqs, h⟩ := bind_eq_ok.mp h
    cases h
    obtain ⟨hop, hhas⟩ := hq q (by simp)
    rw [if_pos hop] at hq₁
    obtain ⟨e₁, p₃, he, hq₁⟩ := bind_eq_ok.mp hq₁
    cases hq₁
    have hplanted := hu.writeTree_planted hT hhas hw he
    obtain ⟨hrec, hgrew⟩ := ih (fun x hx => hq x (by simp [hx])) hplanted.grew.wellKeyed hqs
    exact ⟨.cons ⟨hop, hplanted.inserted, hplanted.has⟩ hrec, hplanted.grew.append hgrew⟩

/-- A batch of inserts and what became of it. -/
structure RecordedAll (u : UnitOfWork) (Γ : Declarations) (b b' : Batch) : Prop where
  type : b'.type = b.type
  pending : List.Forall₂ (u.Recorded Γ b.type) b.pending b'.pending

/-- The batch inserts well-typed entities, and does nothing else. -/
structure Inserts (Γ : Declarations) (b : Batch) : Prop where
  type : b.type = Γ.type b.type.name
  pending : ∀ q ∈ b.pending, q.op = .insert ∧ Γ.Has b.type.name q.entity

lemma Relational.mapM_applyBatch (hu : u.Relational Γ) (hbs : ∀ b ∈ bs, Inserts Γ b)
    (hw : u.WellKeyed Γ p.world)
    (h : bs.mapM (u.applyBatch tx (.insert, .insert)) p = (.ok bs', p')) :
    List.Forall₂ (u.RecordedAll Γ) bs bs' ∧
      u.Grew Γ ((bs'.flatMap Batch.trees).flatMap fun x => u.nodes x.1 x.2) p.world p'.world := by
  induction bs generalizing p bs' with
  | nil =>
    cases h
    exact ⟨.nil, .nil hw⟩
  | cons b bs ih =>
    rw [List.mapM_cons] at h
    obtain ⟨b₁, p₁, hb, h⟩ := bind_eq_ok.mp h
    obtain ⟨bs₁, p₂, hbs₁, h⟩ := bind_eq_ok.mp h
    cases h
    obtain ⟨qs, p₃, hqs, hb⟩ := bind_eq_ok.mp hb
    cases hb
    obtain ⟨htype, hpending⟩ := hbs b (by simp)
    obtain ⟨hrec, hgrew⟩ := hu.mapM_recorded htype hpending hw hqs
    obtain ⟨hrecs, hgrews⟩ := ih (fun x hx => hbs x (by simp [hx])) hgrew.wellKeyed hbs₁
    refine ⟨.cons ⟨rfl, hrec⟩ hrecs, ?_⟩
    rw [List.flatMap_cons, List.flatMap_append]
    refine Grew.append ?_ hgrews
    rw [Batch.trees, List.flatMap_map]
    exact hgrew

/-- A phase without writes of its own leaves everything as it is. -/
lemma mapM_applyBatch_idle {step : Phase × Operation}
    (h : ∀ b ∈ bs, ∀ q ∈ b.pending, q.op ≠ step.2) (p : Progress) :
    bs.mapM (u.applyBatch tx step) p = (.ok bs, p) := by
  have hbatch : ∀ b ∈ bs, u.applyBatch tx step b p = (.ok (id b), p) := by
    intro b hb
    refine (bind_of_ok (mapM_of_ok (g := id) fun q hq => ?_)).trans (by rw [List.map_id]; rfl)
    rw [if_neg (h b hb q hq)]
    rfl
  rw [mapM_of_ok hbatch, List.map_id]

lemma Relational.applyAll_recorded (hu : u.Relational Γ) (hbs : ∀ b ∈ bs, Inserts Γ b)
    (hw : u.WellKeyed Γ p.world) (h : u.applyAll tx bs p = (.ok bs', p')) :
    List.Forall₂ (u.RecordedAll Γ) bs bs' ∧
      u.Grew Γ ((bs'.flatMap Batch.trees).flatMap fun x => u.nodes x.1 x.2) p.world p'.world := by
  have hphases :
      Phase.schedule = [(.insert, .insert), (.update, .update), (.delete, .delete)] := rfl
  rw [applyAll, hphases] at h
  obtain ⟨bs₁, p₁, h₁, h⟩ := bind_eq_ok.mp h
  obtain ⟨hrec, hgrew⟩ := hu.mapM_applyBatch hbs hw h₁
  have hops : ∀ b ∈ bs₁, ∀ q ∈ b.pending, q.op = .insert := by
    intro b hb q hq
    obtain ⟨b₀, -, hb₀⟩ := exists_mem_of_forall₂ hrec hb
    obtain ⟨q₀, -, hq₀⟩ := exists_mem_of_forall₂ hb₀.pending hq
    exact hq₀.op
  have hidle : ∀ phase op, op ≠ .insert →
      bs₁.mapM (u.applyBatch tx (phase, op)) p₁ = (.ok bs₁, p₁) := fun phase op hop =>
    mapM_applyBatch_idle (fun b hb q hq hq' => hop ((hops b hb q hq).symm.trans hq').symm) p₁
  rw [List.foldlM_cons, bind_of_ok (hidle .update .update (by decide)), List.foldlM_cons,
    bind_of_ok (hidle .delete .delete (by decide))] at h
  cases h
  exact ⟨hrec, hgrew⟩

end UnitOfWork

/-! ### The commit -/

namespace UnitOfWork

variable {u : UnitOfWork} {Γ : Declarations} {w w' : World}

/-- Nothing but inserts is buffered. -/
def InsertsOnly (u : UnitOfWork) : Prop := ∀ s ∈ u.stores, ∀ q ∈ s.pending, q.op = .insert

lemma Relational.inserts (hu : u.Relational Γ) (hi : u.InsertsOnly) {b : Batch}
    (hb : b ∈ u.batches) : Inserts Γ b := by
  obtain ⟨s, hs, rfl⟩ := List.mem_map.mp hb
  have hs := List.mem_of_mem_filter hs
  have hd := hu.declared.stores s hs
  exact ⟨hd.adapter.type, fun q hq => ⟨hi s hs q hq, hd.pending q hq⟩⟩

/-- What a commit of inserts that goes through has done: the batches were recorded, and the tables
have grown by their trees. -/
lemma Relational.commit_recorded (hu : u.Relational Γ) (hi : u.InsertsOnly) (hw : u.WellKeyed Γ w)
    {c : Committed} (h : u.commit.1 w = (.ok c, w')) :
    ∃ bs, List.Forall₂ (u.RecordedAll Γ) u.batches bs ∧ c.inserted = bs.map Batch.inserted ∧
      u.Grew Γ ((bs.flatMap Batch.trees).flatMap fun x => u.nodes x.1 x.2) w w' := by
  obtain ⟨tx, w₁, bs, p, closed, hopen, hall, hclosed, rfl⟩ := commit_eq_ok h
  have hw₁ := tables_openFor hopen
  have hkeyed : u.WellKeyed Γ w₁ := by
    rw [WellKeyed, World.rows_of_tables hw₁]
    exact hw
  obtain ⟨hrec, hgrew⟩ := hu.applyAll_recorded (fun _ hb => hu.inserts hi hb) hkeyed hall
  exact ⟨bs, hrec, rfl, hgrew.congr hw₁.symm (Transaction.tables_tryCommit hclosed)⟩

/-! ### What was inserted -/

lemma RecordedAll.inserted {b b' : Batch} (h : u.RecordedAll Γ b b') :
    b'.inserted = (b.type.name, b'.pending.map Pending.entity) := by
  have hops : ∀ q ∈ b'.pending, decide (q.op = .insert) = true := by
    intro q hq
    obtain ⟨q₀, -, hq₀⟩ := exists_mem_of_forall₂ h.pending hq
    exact decide_eq_true hq₀.op
  rw [Batch.inserted, h.type, List.filter_eq_self.mpr hops]

lemma get?_inserted {bs bs' : List Batch} (h : List.Forall₂ (u.RecordedAll Γ) bs bs')
    (hd : (bs.map (·.type.name)).Nodup) {b : Batch} (hb : b ∈ bs) :
    ∃ b' ∈ bs', u.RecordedAll Γ b b' ∧
      Keyed.get? (bs'.map Batch.inserted) b.type.name = some (b'.pending.map Pending.entity) := by
  induction h with
  | nil => simp at hb
  | @cons b₀ b₀' bs bs' hrec _ ih =>
    rw [List.map_cons, List.nodup_cons] at hd
    rw [List.map_cons, hrec.inserted, Keyed.get?]
    rcases List.mem_cons.mp hb with rfl | hb
    · exact ⟨b₀', by simp, hrec, List.lookup_cons_self⟩
    · obtain ⟨b', hb', hrec', hget⟩ := ih hd.2 hb
      have hne : (b.type.name == b₀.type.name) = false := by
        rw [beq_eq_false_iff_ne]
        intro heq
        exact hd.1 (heq ▸ List.mem_map_of_mem (f := fun b : Batch => b.type.name) hb)
      rw [List.lookup_cons, hne]
      exact ⟨b', by simp [hb'], hrec', hget⟩

lemma get?_inserted_eq_none {bs bs' : List Batch} (h : List.Forall₂ (u.RecordedAll Γ) bs bs')
    {name : String} (hn : name ∉ bs.map (·.type.name)) :
    Keyed.get? (bs'.map Batch.inserted) name = none := by
  refine List.lookup_eq_none_iff.mpr fun p hp => ?_
  obtain ⟨b', hb', rfl⟩ := List.mem_map.mp hp
  obtain ⟨b, hb, hrec⟩ := exists_mem_of_forall₂ h hb'
  rw [hrec.inserted]
  simp only [bne_iff_ne]
  rintro rfl
  exact hn (List.mem_map_of_mem (f := fun b : Batch => b.type.name) hb)

/-- The entities that a commit reports as inserted are, in order, what became of the buffered
ones. -/
lemma Relational.insertedOf_eq (hu : u.Relational Γ) {bs : List Batch}
    (h : List.Forall₂ (u.RecordedAll Γ) u.batches bs) {c : Committed}
    (hc : c.inserted = bs.map Batch.inserted) {s : DataStore} (hs : s ∈ u.stores) :
    ∃ qs, List.Forall₂ (u.Recorded Γ s.type) s.pending qs ∧
      c.insertedOf s.type = qs.map Pending.entity ∧
      ∀ q ∈ qs, (s.type, q.entity) ∈ bs.flatMap Batch.trees := by
  have hd : (u.batches.map (·.type.name)).Nodup := by
    rw [batches, List.map_map]
    exact hu.names.sublist (List.filter_sublist.map _)
  rw [Committed.insertedOf, hc]
  by_cases hp : s.pending = []
  · have hnone : s.type.name ∉ u.batches.map (·.type.name) := by
      intro hmem
      obtain ⟨b, hb, hname⟩ := List.mem_map.mp hmem
      obtain ⟨s', hs', rfl⟩ := List.mem_map.mp hb
      obtain ⟨hs', hpending⟩ := List.mem_filter.mp hs'
      obtain rfl := hu.eq_of_name hs' hs hname
      simp [hp] at hpending
    rw [hp, get?_inserted_eq_none h hnone]
    exact ⟨[], .nil, rfl, by simp⟩
  · have hb : (⟨s.type, s.pending⟩ : Batch) ∈ u.batches :=
      List.mem_map.mpr ⟨s, List.mem_filter.mpr ⟨hs, by simpa using hp⟩, rfl⟩
    obtain ⟨b', hb', hrec, hget⟩ := get?_inserted h hd hb
    refine ⟨b'.pending, hrec.pending, ?_, fun q hq => ?_⟩
    · rw [hget]
      rfl
    · refine List.mem_flatMap.mpr ⟨b', hb', List.mem_map.mpr ⟨q, hq, ?_⟩⟩
      rw [hrec.type]

end UnitOfWork

end EntityStore
