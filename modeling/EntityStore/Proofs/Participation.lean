import EntityStore.UnitOfWork.Commit
import Mathlib.Data.List.Nodup
import Mathlib.Tactic.Lemma

/-!
Which types take part in a commit: those with buffered writes, and along mapped relations the
registered types of children below them. The list that a commit makes holds these and no other, each
once; it grows while it is scanned, but not beyond the number of stores.
-/

namespace EntityStore.UnitOfWork

variable (u : UnitOfWork)

/-- A commit may write entities of the type. -/
inductive TakesPart : String → Prop
  | buffered {s : DataStore} (hs : s ∈ u.stores) (hp : s.pending ≠ []) : TakesPart s.type.name
  | child {r : Relation} (hr : r ∈ u.relations) (hp : TakesPart r.parent.name)
    (hs : (u.store? r.child.name).isSome) : TakesPart r.child.name

/-- The types with buffered writes. -/
def types (u : UnitOfWork) : List String := u.batches.map (·.type.name)

variable {u}

lemma commit_of_nil (h : u.batches = []) : u.commit.1 = pure ⟨0, []⟩ := by
  simp only [commit, commitBuffered, h]

/-- A commit opens a transaction for the types with buffered writes, and makes these in it. -/
lemma commit_of_cons {b : Batch} {bs : List Batch} (h : u.batches = b :: bs) :
    u.commit.1 = u.openFor u.types >>= fun tx => u.commitBatches tx b.type.name u.batches := by
  simp only [commit, commitBuffered, types, h]

lemma store?_eq_some {name : String} {s : DataStore} (h : u.store? name = some s) :
    s ∈ u.stores ∧ s.type.name = name :=
  ⟨List.mem_of_find?_eq_some h, by simpa using List.find?_some h⟩

lemma store_eq_ok {T : EntityType} {s : DataStore} (h : u.store T = .ok s) :
    u.store? T.name = some s := by
  unfold store at h
  split at h
  · cases h; assumption
  · cases h

lemma store_eq_error {T : EntityType} {err : Error} (h : u.store T = .error err) :
    u.store? T.name = none ∧ err = .unregisteredEntity T.name := by
  unfold store at h
  split at h
  · cases h
  · rename_i hnone
    cases h
    exact ⟨hnone, rfl⟩

/-- A store is found under the name of its type, where stores are told apart by these. -/
lemma store?_of_mem (hd : (u.stores.map (·.type.name)).Nodup) {s : DataStore} (hs : s ∈ u.stores) :
    u.store? s.type.name = some s := by
  obtain ⟨s', hs'⟩ := Option.isSome_iff_exists.mp
    (List.find?_isSome.mpr ⟨s, hs, by simp⟩ : (u.store? s.type.name).isSome)
  obtain ⟨hmem, hname⟩ := store?_eq_some hs'
  obtain rfl := List.inj_on_of_nodup_map hd hmem hs hname
  exact hs'

lemma TakesPart.registered {name : String} (h : u.TakesPart name) :
    ∃ s, u.store? name = some s := by
  cases h with
  | @buffered s hs hp =>
    refine Option.isSome_iff_exists.mp (List.find?_isSome.mpr ⟨s, hs, ?_⟩)
    simp
  | child hr hp hs => exact Option.isSome_iff_exists.mp hs

lemma takesPart_of_batch {b : Batch} (hb : b ∈ u.batches) : u.TakesPart b.type.name := by
  obtain ⟨s, hs, rfl⟩ := List.mem_map.mp hb
  obtain ⟨hs, hp⟩ := List.mem_filter.mp hs
  exact .buffered hs (by simpa using hp)

/-! ### The list of participants -/

/-- One relation of the type that is looked at: its child is listed unless it is already. -/
def reachStep (u : UnitOfWork) (listed found : List String) (r : Relation) : List String :=
  if (u.store? r.child.name).isSome && !(listed ++ found).contains r.child.name then
    found ++ [r.child.name]
  else found

lemma newlyReached_eq (listed : List String) (T : String) : u.newlyReached listed T =
    (u.relations.filter (·.parent.name = T)).foldl (u.reachStep listed) [] := rfl

lemma mem_foldl_reachStep {listed : List String} {C : String} (rs : List Relation)
    (found : List String) : C ∈ listed ++ rs.foldl (u.reachStep listed) found ↔
      C ∈ listed ++ found ∨ ∃ r ∈ rs, r.child.name = C ∧ (u.store? C).isSome := by
  induction rs generalizing found with
  | nil => simp
  | cons r rs ih =>
    rw [List.foldl_cons, ih]
    unfold reachStep
    split
    · rename_i h
      simp only [Bool.and_eq_true] at h
      simp only [List.mem_append, List.mem_cons, List.not_mem_nil, or_false, exists_eq_or_imp]
      constructor
      · rintro ((hC | hC | rfl) | hC)
        · exact .inl (.inl hC)
        · exact .inl (.inr hC)
        · exact .inr (.inl ⟨rfl, h.1⟩)
        · exact .inr (.inr hC)
      · rintro ((hC | hC) | ⟨rfl, -⟩ | hC)
        · exact .inl (.inl hC)
        · exact .inl (.inr (.inl hC))
        · exact .inl (.inr (.inr rfl))
        · exact .inr hC
    · rename_i h
      simp only [List.mem_cons, exists_eq_or_imp]
      constructor
      · rintro (hC | hC)
        · exact .inl hC
        · exact .inr (.inr hC)
      · rintro (hC | ⟨rfl, hs⟩ | hC)
        · exact .inl hC
        · left
          by_contra hC
          exact h (by simpa [hs] using hC)
        · exact .inr hC

lemma nodup_foldl_reachStep {listed : List String} (rs : List Relation) {found : List String}
    (h : (listed ++ found).Nodup) : (listed ++ rs.foldl (u.reachStep listed) found).Nodup := by
  induction rs generalizing found with
  | nil => exact h
  | cons r rs ih =>
    rw [List.foldl_cons]
    refine ih ?_
    unfold reachStep
    split
    · rename_i hc
      rw [← List.append_assoc]
      simp only [Bool.and_eq_true] at hc
      refine List.Nodup.append h (List.nodup_singleton _) ?_
      simpa using hc.2
    · exact h

/-- What is listed after a type was looked at: what was before, and the registered children. -/
lemma mem_append_newlyReached {listed : List String} {T C : String} :
    C ∈ listed ++ u.newlyReached listed T ↔ C ∈ listed ∨
      ∃ r ∈ u.relations, r.parent.name = T ∧ r.child.name = C ∧ (u.store? C).isSome := by
  rw [newlyReached_eq, mem_foldl_reachStep, List.append_nil]
  simp only [List.mem_filter, decide_eq_true_eq, and_assoc]

lemma nodup_append_newlyReached {listed : List String} (T : String) (h : listed.Nodup) :
    (listed ++ u.newlyReached listed T).Nodup := by
  rw [newlyReached_eq]
  exact nodup_foldl_reachStep _ (by rwa [List.append_nil])

lemma takesPart_of_mem_reachFrom {listed : List String} {place : Nat}
    (hl : ∀ T ∈ listed, u.TakesPart T) : ∀ T ∈ u.reachFrom listed place, u.TakesPart T := by
  intro C hC
  unfold reachFrom at hC
  split at hC
  · rename_i T hT
    rcases mem_append_newlyReached.mp hC with hC | ⟨r, hr, rfl, rfl, hs⟩
    · exact hl C hC
    · exact .child hr (hl _ (List.mem_of_getElem? hT)) hs
  · exact hl C hC

/-- Every listed type takes part. -/
lemma takesPart_of_mem_participants {types : List String} (ht : ∀ T ∈ types, u.TakesPart T) :
    ∀ T ∈ u.participants types, u.TakesPart T := by
  unfold participants
  generalize List.range u.stores.length = places
  induction places generalizing types with
  | nil => exact ht
  | cons place places ih => exact ih (takesPart_of_mem_reachFrom ht)

lemma participants_nil (u : UnitOfWork) : u.participants [] = [] := by
  unfold participants
  induction List.range u.stores.length with
  | nil => rfl
  | cons place places ih => exact ih

lemma prefix_participants (types : List String) : types <+: u.participants types := by
  unfold participants
  generalize List.range u.stores.length = places
  induction places generalizing types with
  | nil => exact List.prefix_refl _
  | cons place places ih =>
    refine List.IsPrefix.trans ?_ (ih (u.reachFrom types place))
    unfold reachFrom
    split
    · exact List.prefix_append _ _
    · exact List.prefix_refl _

/-! ### The scan of the list -/

/-- From a place of the list it is looked at type by type, while it grows, until there are no more:
the list that this ends with. -/
inductive Scans (u : UnitOfWork) : List String → Nat → List String → Prop
  | done {listed : List String} {place : Nat} (h : listed.length ≤ place) :
    Scans u listed place listed
  | step {listed : List String} {place : Nat} {T : String} {final : List String}
    (h : listed[place]? = some T)
    (rest : Scans u (listed ++ u.newlyReached listed T) (place + 1) final) :
    Scans u listed place final

/-- All that are listed are registered, and none is listed twice. -/
structure Lists (u : UnitOfWork) (listed : List String) : Prop where
  nodup : listed.Nodup
  registered : ∀ T ∈ listed, (u.store? T).isSome

lemma Lists.step {listed : List String} (h : u.Lists listed) (T : String) :
    u.Lists (listed ++ u.newlyReached listed T) where
  nodup := nodup_append_newlyReached T h.nodup
  registered C hC := by
    rcases mem_append_newlyReached.mp hC with hC | ⟨r, -, -, -, hs⟩
    · exact h.registered C hC
    · exact hs

/-- There are no more types to list than stores. -/
lemma Lists.length_le {listed : List String} (h : u.Lists listed) :
    listed.length ≤ u.stores.length := by
  have hsub : listed ⊆ u.stores.map (·.type.name) := by
    intro T hT
    obtain ⟨s, hs⟩ := Option.isSome_iff_exists.mp (h.registered T hT)
    obtain ⟨hmem, rfl⟩ := store?_eq_some hs
    exact List.mem_map_of_mem (f := fun s : DataStore => s.type.name) hmem
  simpa using h.nodup.length_le_of_subset hsub

lemma Scans.lists {listed final : List String} {place : Nat} (h : u.Scans listed place final)
    (hl : u.Lists listed) : u.Lists final := by
  induction h with
  | done => exact hl
  | step _ _ ih => exact ih (hl.step _)

lemma Scans.subset {listed final : List String} {place : Nat} (h : u.Scans listed place final) :
    listed ⊆ final := by
  induction h with
  | done => exact List.Subset.refl _
  | step _ _ ih => exact fun C hC => ih (List.mem_append_left _ hC)

/-- The list that a scan ends with is closed: once the types before the place are, all are. -/
lemma Scans.closed {listed final : List String} {place : Nat} (h : u.Scans listed place final)
    (hbefore : ∀ i < place, ∀ r ∈ u.relations, listed[i]? = some r.parent.name →
      (u.store? r.child.name).isSome → r.child.name ∈ listed) :
    ∀ r ∈ u.relations, r.parent.name ∈ final → (u.store? r.child.name).isSome →
      r.child.name ∈ final := by
  induction h with
  | done hlen =>
    intro r hr hp hs
    obtain ⟨i, hi, hget⟩ := List.getElem_of_mem hp
    exact hbefore i (by omega) r hr (by rw [List.getElem?_eq_getElem hi, hget]) hs
  | @step listed place T final hT rest ih =>
    refine ih fun i hi r hr hget hs => ?_
    have hplace := (List.getElem?_eq_some_iff.mp hT).1
    rw [List.getElem?_append_left (by omega)] at hget
    refine mem_append_newlyReached.mpr ?_
    rcases Nat.lt_succ_iff_lt_or_eq.mp hi with hi | rfl
    · exact .inl (hbefore i hi r hr hget hs)
    · rw [hT] at hget
      exact .inr ⟨r, hr, (Option.some.inj hget).symm, rfl, hs⟩

/-- Past the end of the list nothing is looked at. -/
lemma foldl_reachFrom_of_length_le {listed : List String} (k place : Nat)
    (h : listed.length ≤ place) : (List.range' place k).foldl u.reachFrom listed = listed := by
  induction k generalizing place with
  | zero => rfl
  | succ k ih =>
    have hnone : u.reachFrom listed place = listed := by
      unfold reachFrom
      rw [List.getElem?_eq_none h]
    rw [List.range'_succ, List.foldl_cons, hnone]
    exact ih (place + 1) (by omega)

/-- With a place for every store the scan comes to its end. -/
lemma scans_foldl_reachFrom {listed : List String} (hl : u.Lists listed) (k place : Nat)
    (hk : place + k = u.stores.length) :
    u.Scans listed place ((List.range' place k).foldl u.reachFrom listed) := by
  induction k generalizing listed place with
  | zero =>
    have := hl.length_le
    exact .done (by omega)
  | succ k ih =>
    by_cases hlen : listed.length ≤ place
    · rw [foldl_reachFrom_of_length_le _ _ hlen]
      exact .done hlen
    · obtain ⟨T, hT⟩ : ∃ T, listed[place]? = some T := ⟨_, List.getElem?_eq_getElem (by omega)⟩
      have hstep : u.reachFrom listed place = listed ++ u.newlyReached listed T := by
        unfold reachFrom
        rw [hT]
      rw [List.range'_succ, List.foldl_cons, hstep]
      exact .step hT (ih (hl.step T) (place + 1) (by omega))

lemma scans_participants {types : List String} (hl : u.Lists types) :
    u.Scans types 0 (u.participants types) := by
  rw [participants, List.range_eq_range']
  exact scans_foldl_reachFrom hl _ 0 (Nat.zero_add _)

/-- The types with buffered writes, each listed once where stores are told apart by their types. -/
lemma lists_batches (hd : (u.stores.map (·.type.name)).Nodup) :
    u.Lists (u.batches.map (·.type.name)) where
  nodup := by
    rw [batches, List.map_map]
    exact hd.sublist (List.filter_sublist.map _)
  registered T hT := by
    obtain ⟨b, hb, rfl⟩ := List.mem_map.mp hT
    obtain ⟨s, hs⟩ := (takesPart_of_batch hb).registered
    rw [hs]
    rfl

/-- The list of participants is of those that take part. -/
lemma mem_participants (hd : (u.stores.map (·.type.name)).Nodup) {T : String} :
    T ∈ u.participants (u.batches.map (·.type.name)) ↔ u.TakesPart T := by
  constructor
  · refine takesPart_of_mem_participants (fun C hC => ?_) T
    obtain ⟨b, hb, rfl⟩ := List.mem_map.mp hC
    exact takesPart_of_batch hb
  · intro h
    have hscan := scans_participants (u.lists_batches hd)
    have hclosed := hscan.closed (by simp)
    induction h with
    | @buffered s hs hp =>
      refine hscan.subset (List.mem_map.mpr ⟨⟨s.type, s.pending⟩, ?_, rfl⟩)
      exact List.mem_map.mpr ⟨s, List.mem_filter.mpr ⟨hs, by simpa using hp⟩, rfl⟩
    | child hr _ hs ih => exact hclosed _ hr ih hs

/-! ### The shared backend -/

/-- Where all report one backend, that one is shared. -/
lemma sharedBackend_eq {types : List String} {b : BackendId} (hne : types ≠ [])
    (h : ∀ T ∈ types, (u.store? T).bind (·.adapter.backend) = some b) :
    u.sharedBackend types = some b := by
  obtain ⟨T, rest, rfl⟩ := List.exists_cons_of_ne_nil hne
  have hrest : ∀ x ∈ rest.map fun T => (u.store? T).bind (·.adapter.backend), x = some b := by
    intro x hx
    obtain ⟨C, hC, rfl⟩ := List.mem_map.mp hx
    exact h C (by simp [hC])
  unfold sharedBackend
  rw [List.map_cons, h T (by simp)]
  simp only
  rw [if_pos (by simpa using hrest)]

/-- What is shared is what all report. -/
lemma of_sharedBackend {types : List String} {b : BackendId} (h : u.sharedBackend types = some b) :
    types ≠ [] ∧ ∀ T ∈ types, (u.store? T).bind (·.adapter.backend) = some b := by
  rcases types with _ | ⟨T, rest⟩
  · cases h
  · unfold sharedBackend at h
    rw [List.map_cons] at h
    rcases hT : (u.store? T).bind (·.adapter.backend) with _ | b'
    · rw [hT] at h
      cases h
    · rw [hT] at h
      simp only [Option.ite_none_right_eq_some, Option.some.injEq, List.all_eq_true] at h
      obtain ⟨hall, rfl⟩ := h
      refine ⟨by simp, fun C hC => ?_⟩
      rcases List.mem_cons.mp hC with rfl | hC
      · exact hT
      · have := hall _ (List.mem_map_of_mem hC)
        simpa using this

end EntityStore.UnitOfWork
