import EntityStore.Proofs.Atomicity
import EntityStore.Proofs.Entries
import EntityStore.Proofs.Removal

/-!
Commits of deletions. In a tree that is deleted there is one deletion for each node, so the commit
takes out the rows under the keys of all nodes and leaves the others in their order. It goes through
wherever a transaction can begin.
-/

namespace EntityStore

open Fallible

/-- The deletion of a node. -/
def Entry.deletion (x : EntityType × Entity) : Entry :=
  ⟨.delete, x.1.name, x.2.scalars, x.2.scalars⟩

namespace UnitOfWork

/-! ### What a commit of deletions takes out -/

section Trees

variable {u : UnitOfWork}

mutual

/-- In a tree that is deleted there is one deletion for each node. -/
lemma Cascades.entries_perm {op : Operation} {T : EntityType} {e : Entity} {t : Written}
    (h : u.Cascades op T e t) (hop : op = .delete) :
    t.entries.Perm ((u.nodes T e).map Entry.deletion) := by
  match h with
  | @Cascades.node _ _ _ _ e' ts s store leaves below =>
    have hbelow := below.entriesAll_perm hop
    subst hop
    obtain rfl := leaves.eq_of_ne (by decide)
    rw [Written.entries, nodes_eq, descendants, List.map_cons]
    exact (hbelow.append_right _).trans (List.perm_append_singleton _ _)

lemma CascadesAll.entriesAll_perm {op : Operation} {left : Record}
    {rcs : List (Relation × Entity)} {ts : List Written} (h : u.CascadesAll op left rcs ts)
    (hop : op = .delete) : (Written.entriesAll ts).Perm
      ((rcs.flatMap fun rc => u.nodes rc.1.child rc.2).map Entry.deletion) := by
  match h with
  | .nil => exact .nil
  | @CascadesAll.cons _ _ _ r c c' t rcs ts receives head tail =>
    have hhead := head.entries_perm (by rw [childOperation, hop]; simp)
    have htail := tail.entriesAll_perm hop
    rw [Receives, if_pos hop] at receives
    rw [receives] at hhead
    rw [Written.entriesAll, List.flatMap_cons, List.map_append]
    exact hhead.append htail

end

lemma CarriesOut.entriesAll_perm {plan : List (Operation × EntityType × Entity)}
    {forest : List Written} (h : u.CarriesOut plan forest) (hop : ∀ x ∈ plan, x.1 = .delete) :
    (Written.entriesAll forest).Perm
      ((plan.flatMap fun x => u.nodes x.2.1 x.2.2).map Entry.deletion) := by
  induction h with
  | nil => exact .nil
  | @cons x t plan forest head _ ih =>
    rw [Written.entriesAll, List.flatMap_cons, List.map_append]
    exact (head.entries_perm (hop x (by simp))).append (ih fun y hy => hop y (by simp [hy]))

/-- The deletions hit the rows that are under the key of a node. -/
lemma hits_eq {xs : List Attempt} {nodes : List (EntityType × Entity)}
    (h : (xs.map Attempt.entry).Perm (nodes.map Entry.deletion)) (s : DataStore) (row : Entity) :
    hits xs s row = nodes.any fun x =>
      x.1.name = s.type.name && s.adapter.schema.under s.type x.2 row := by
  have hany := h.any_eq (f := fun y : Entry =>
    y.type = s.type.name && s.adapter.schema.under s.type ⟨y.sent, []⟩ row)
  rw [List.any_map, List.any_map] at hany
  exact hany

end Trees

section Commit

variable {u : UnitOfWork} {Γ : Declarations} {w w' : World} {c : Committed}

/-- A row is under the key of a node of what is buffered. -/
def doomed (u : UnitOfWork) (s : DataStore) (row : Entity) : Bool :=
  (u.plan.flatMap fun x => u.nodes x.2.1 x.2.2).any fun x =>
    x.1.name = s.type.name && s.adapter.schema.under s.type x.2 row

lemma doomed_iff {s : DataStore} {row : Entity} : u.doomed s row = true ↔
    ∃ y ∈ u.plan, ∃ x ∈ u.nodes y.2.1 y.2.2, x.1.name = s.type.name ∧
      s.adapter.schema.under s.type x.2 row = true := by
  simp only [doomed, List.any_eq_true, List.mem_flatMap, Bool.and_eq_true, decide_eq_true_eq]
  constructor
  · rintro ⟨x, ⟨y, hy, hx⟩, h⟩
    exact ⟨y, hy, x, hx, h⟩
  · rintro ⟨y, hy, x, hx, h⟩
    exact ⟨x, ⟨y, hy, hx⟩, h⟩

/-- A commit of deletions takes out the rows under the keys of all nodes. -/
lemma Searchable.rows_of_commit (hu : u.Searchable Γ) (hw : u.Typed Γ w) (hk : u.DistinctKeys w)
    (hop : ∀ x ∈ u.plan, x.1 = .delete) (h : u.commit.1 w = (.ok c, w')) :
    (∀ s ∈ u.stores, w'.rows s.table = (w.rows s.table).filter fun row => !u.doomed s row) ∧
      ∀ table, (∀ s ∈ u.stores, s.table ≠ table) → w'.rows table = w.rows table := by
  obtain ⟨tx, xs, w₁, w₂, forest, h₁, h₂, hxs, hproper, hforest, hentries⟩ :=
    hu.declared.commit_entries hu.once h
  have hperm := hforest.entriesAll_perm hop
  rw [hentries] at hperm
  have hdelete : ∀ x ∈ xs, x.op = .delete := by
    intro x hx
    obtain ⟨y, -, hy⟩ := List.mem_map.mp (hperm.subset (List.mem_map_of_mem hx))
    exact (congrArg Entry.op hy).symm
  have hw₁ : u.Typed Γ w₁ := by
    rw [Typed, h₁]
    exact hw
  have hk₁ : u.DistinctKeys w₁ := ⟨by rw [h₁]; exact hk.differ, hk.notFloat⟩
  obtain ⟨hrows, hothers⟩ := hu.rows_of_deletions hw₁ hk₁ hxs hproper hdelete
  rw [h₁] at hrows hothers
  rw [h₂]
  refine ⟨fun s hs => ?_, hothers⟩
  rw [hrows s hs]
  exact List.filter_congr fun row _ => by rw [hits_eq hperm, doomed]

/-- The backend that the participants share, if they do, has no transaction open. -/
def Ready (u : UnitOfWork) (w : World) (types : List String) : Prop :=
  ∀ b, u.sharedBackend (u.participants types) = some b →
    w.backends.get? b = some (.journal none)

/-- What participants over tables in memory share is the journal of all their tables. -/
lemma Searchable.joined (hu : u.Searchable Γ) (hg : u.Unguarded) (hk : u.DistinctKeys w)
    {b : BackendId} (hb : u.sharedBackend (u.participants u.types) = some b) :
    ∃ name, b = .memory name ∧ u.Joined Γ name := by
  obtain ⟨hne, hall⟩ := of_sharedBackend hb
  have hbackend : ∀ s ∈ u.stores, u.TakesPart s.type.name → ∃ t, s.adapter.storage = .memory t ∧
      t.journalName.map .memory = some b ∧ s.adapter.backend = some b := by
    intro s hs htakes
    obtain ⟨t, ht⟩ := hu.memory s hs
    have hreports := hall _ ((mem_participants hu.names).mpr htakes)
    rw [store?_of_mem hu.names hs, Option.bind_some] at hreports
    refine ⟨t, ht, ?_, hreports⟩
    rwa [Adapter.backend, hg s hs, Adapter.ownBackend, ht] at hreports
  obtain ⟨T, hT⟩ := List.exists_mem_of_ne_nil _ hne
  have htakes : u.TakesPart T := (mem_participants hu.names).mp hT
  obtain ⟨s, hs⟩ := htakes.registered
  obtain ⟨hmem, rfl⟩ := store?_eq_some hs
  obtain ⟨t, -, hjournal, -⟩ := hbackend s hmem htakes
  obtain ⟨name, -, rfl⟩ := Option.map_eq_some_iff.mp hjournal
  refine ⟨name, rfl, hu.declared, fun s hs htakes => ?_, fun s hs _ => hk.notFloat s hs⟩
  obtain ⟨⟨table, journalName⟩, ht, hjournal, hreports⟩ := hbackend s hs htakes
  obtain ⟨name', rfl, hname⟩ := Option.map_eq_some_iff.mp hjournal
  cases hname
  exact ⟨⟨table, ht⟩, hreports⟩

/-- A commit goes through if its writes do and the transaction can be closed. -/
lemma commitBatches_of_ok {tx closed : Transaction} (first : String) {batches bs : List Batch}
    {p : Progress} (hall : u.applyAll tx batches ⟨w, 0⟩ = (.ok bs, p))
    (hclosed : tx.tryCommit p.world = (.ok closed, w')) :
    u.commitBatches tx first batches w = (.ok ⟨p.applied, bs.map Batch.inserted⟩, w') := by
  have hstep : discard (Committing.ofStep first .commit tx.tryCommit) p =
      (.ok (), ⟨w', p.applied⟩) := bind_of_ok (Committing.ofStep_of_ok hclosed)
  have hcommit : u.applyAndCommit tx first batches ⟨w, 0⟩ = (.ok bs, ⟨w', p.applied⟩) := by
    rw [applyAndCommit, bind_of_ok hall, bind_of_ok hstep]
    rfl
  rw [commitBatches, hcommit]

/-- A commit of deletions goes through where a transaction can begin. -/
lemma Searchable.commit_total (hu : u.Searchable Γ) (hg : u.Unguarded) (hk : u.DistinctKeys w)
    (hdel : ∀ b ∈ u.batches, u.Deletes Γ b) (hready : u.batches ≠ [] → u.Ready w u.types) :
    ∃ c w', u.commit.1 w = (.ok c, w') := by
  rcases hbs : u.batches with _ | ⟨b, bs⟩
  · rw [commit_of_nil hbs]
    exact ⟨⟨0, []⟩, w, rfl⟩
  rw [commit_of_cons hbs]
  have hclosing : ∃ tx w₁, u.openFor u.types w = (.ok tx, w₁) ∧
      ∀ bs' p, u.applyAll tx u.batches ⟨w₁, 0⟩ = (.ok bs', p) →
        ∃ closed w', tx.tryCommit p.world = (.ok closed, w') := by
    rcases hb : u.sharedBackend (u.participants u.types) with _ | backend
    · refine ⟨.autocommit, w, by rw [openFor, hb]; rfl, fun _ p _ => ⟨.autocommit, p.world, rfl⟩⟩
    · obtain ⟨name, rfl, hjoined⟩ := hu.joined hg hk hb
      obtain ⟨w₁, hbegin, hw₁⟩ := World.begin_journal (hready (by simp [hbs]) _ hb)
      refine ⟨⟨some (.memory name)⟩, w₁, by rw [openFor, hb]; exact hbegin, fun bs' p hall => ?_⟩
      have hkeeps := (hjoined.keeps.applyAll fun batch h => hjoined.ofBatch h) ⟨w₁, 0⟩ hw₁
      rw [hall] at hkeeps
      obtain ⟨w', hw'⟩ := World.commit_journal hkeeps.1
      exact ⟨.autocommit, w', hw'⟩
  obtain ⟨tx, w₁, hopen, hclosing⟩ := hclosing
  obtain ⟨bs', p, hall⟩ : ∃ bs' p, u.applyAll tx u.batches ⟨w₁, 0⟩ = (.ok bs', p) :=
    hu.applyAll_total hg hdel ⟨w₁, 0⟩
  obtain ⟨closed, w', hclosed⟩ := hclosing bs' p hall
  rw [bind_of_ok hopen, commitBatches_of_ok b.type.name hall hclosed]
  exact ⟨_, _, rfl⟩

end Commit

end UnitOfWork

end EntityStore
