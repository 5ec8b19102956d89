import EntityStore.Proofs.Halting

/-!
What a whole commit has written. Where the writes in a row are not only the first for an entity but
all, they make up its tree, and each of them is there with what it was asked for and what it left.
-/

namespace EntityStore

/-! ### Entries -/

/-- A write with the scalars that it was asked for and those that it left. -/
structure Entry where
  op : Operation
  type : String
  sent : Record
  left : Record

/-- The write alone. -/
def Entry.write (x : Entry) : Write := ⟨x.op, x.type, x.sent⟩

/-- A write that fails leaves the scalars as they were. -/
def Attempt.entry (x : Attempt) : Entry where
  op := x.op
  type := x.store.type.name
  sent := x.entity.scalars
  left := (x.result.toOption.getD x.entity).scalars

namespace Written

mutual

/-- The writes of a tree in order, with what they left. -/
def entries : Written → List Entry
  | node .delete type sent left below => entriesAll below ++ [⟨.delete, type, sent, left⟩]
  | node op type sent left below => ⟨op, type, sent, left⟩ :: entriesAll below

/-- The writes of trees, one after another, with what they left. -/
def entriesAll : List Written → List Entry
  | [] => []
  | t :: ts => entries t ++ entriesAll ts

end

lemma entriesAll_append (ts us : List Written) :
    entriesAll (ts ++ us) = entriesAll ts ++ entriesAll us := by
  induction ts with
  | nil => rfl
  | cons t ts ih => simp only [List.cons_append, entriesAll, ih, List.append_assoc]

/-- What is written before what hangs below it comes first. -/
lemma entries_node {op : Operation} (hop : op ≠ .delete) (type : String) (sent left : Record)
    (below : List Written) :
    (node op type sent left below).entries = ⟨op, type, sent, left⟩ :: entriesAll below := by
  cases op with
  | insert => rfl
  | update => rfl
  | delete => exact absurd rfl hop

end Written

namespace UnitOfWork

variable {u : UnitOfWork}

/-- What was written under a relation is there, also where there is nothing under it. -/
lemma collection_of_cascadedAll {op : Operation} {r : Relation} {e : Entity} {cs : List Entity}
    {ts : List Written}
    (h : u.CascadedAll op e.scalars ((e.collection r.navigation).map (r, ·)) (cs.map (r, ·)) ts) :
    (e.withCollection r.navigation cs).collection r.navigation = cs := by
  by_cases hnone : e.collection r.navigation = []
  · rw [hnone] at h
    generalize hcs : cs.map (r, ·) = rcs at h
    cases h
    obtain rfl := List.map_eq_nil_iff.mp hcs
    rw [Entity.collection_withCollection, if_pos rfl]
    rcases e.children.lookup r.navigation with _ | es <;> rfl
  · exact Entity.collection_withCollection_self (Entity.mem_names_of_collection_ne_nil hnone) cs

mutual

/-- All the writes for an entity make up its tree. -/
lemma Begins.cascaded {op : Operation} {T : EntityType} {e : Entity} {xs : List Attempt}
    {left : Option Entity} (h : u.Begins op T e xs left) (hm : u.MapsOnce) :
    ∀ e', left = some e' → ∃ t, u.Cascaded op T e e' t ∧ t.entries = xs.map Attempt.entry := by
  match h with
  | .stop => exact fun _ h => nomatch h
  | @Begins.first _ _ _ _ e₁ s xs _ hop store leaves below =>
    intro e' h
    obtain ⟨hscalars, -, ts, hts, hentries⟩ :=
      below.cascadedAll hm (hm.nodup_relationsOf T) e' h
    have hts : u.CascadedAll op e₁.scalars (u.below T e₁) (u.below T e') ts := hts
    rw [below_congr leaves.children] at hts
    refine ⟨_, .node store leaves hscalars hts, ?_⟩
    rw [Written.entries_node hop, hentries, List.map_cons, Attempt.entry, (store?_eq_some store).2]
    rfl
  | .under _ => exact fun _ h => nomatch h
  | @Begins.last _ _ _ e₁ s xs store below =>
    intro e' h
    cases h
    obtain ⟨hscalars, -, ts, hts, hentries⟩ :=
      below.cascadedAll hm (hm.nodup_relationsOf T) e₁ rfl
    refine ⟨_, .node store (Adapter.leaves_self (by decide) e) hscalars hts, ?_⟩
    rw [Written.entries, hentries, List.map_append, List.map_singleton, Attempt.entry,
      (store?_eq_some store).2, ← hscalars]
    rfl

/-- All the writes below an entity along relations of distinct navigations make up the trees
below. -/
lemma BeginsBelow.cascadedAll {op : Operation} {rs : List Relation} {e : Entity}
    {xs : List Attempt} {left : Option Entity} (h : u.BeginsBelow op rs e xs left)
    (hm : u.MapsOnce) : (rs.map (·.navigation)).Nodup → ∀ e', left = some e' →
      e'.scalars = e.scalars ∧
      (∀ other, other ∉ rs.map (·.navigation) → e'.collection other = e.collection other) ∧
      ∃ ts, u.CascadedAll op e.scalars
          (rs.flatMap fun r => (e.collection r.navigation).map (r, ·))
          (rs.flatMap fun r => (e'.collection r.navigation).map (r, ·)) ts ∧
        Written.entriesAll ts = xs.map Attempt.entry := by
  match h with
  | .stop => exact fun _ _ h => nomatch h
  | .nil =>
    intro hd e' h
    cases h
    exact ⟨rfl, fun _ _ => rfl, [], .nil, rfl⟩
  | @BeginsBelow.empty _ _ r rs _ _ _ childless rest =>
    intro hd e' h
    rw [List.map_cons, List.nodup_cons] at hd
    obtain ⟨hscalars, hsame, ts, hts, hentries⟩ := rest.cascadedAll hm hd.2 e' h
    refine ⟨hscalars, fun other ho => hsame other fun h => ho (by simp [h]), ts, ?_, hentries⟩
    rw [List.flatMap_cons, List.flatMap_cons, hsame _ hd.1, childless]
    exact hts
  | .within _ => exact fun _ _ h => nomatch h
  | @BeginsBelow.after _ _ r rs _ cs xs ys _ children rest =>
    intro hd e' h
    rw [List.map_cons, List.nodup_cons] at hd
    obtain ⟨ts, hts, hentries⟩ := children.cascadedAll hm cs rfl
    obtain ⟨hscalars, hsame, us, hus, hentries'⟩ := rest.cascadedAll hm hd.2 e' h
    -- No later relation has the navigation of this one, so their collections are as they were.
    have hrest : (rs.flatMap fun q =>
        ((e.withCollection r.navigation cs).collection q.navigation).map (q, ·)) =
        rs.flatMap fun q => (e.collection q.navigation).map (q, ·) := by
      refine List.flatMap_congr fun q hq => ?_
      have hne : q.navigation ≠ r.navigation := by
        intro heq
        exact hd.1 (heq ▸ List.mem_map_of_mem (f := fun q : Relation => q.navigation) hq)
      rw [Entity.collection_withCollection_of_ne _ _ hne]
    rw [hrest] at hus
    refine ⟨hscalars, fun other ho => ?_, ts ++ us, ?_, ?_⟩
    · rw [List.map_cons, List.mem_cons, not_or] at ho
      rw [hsame _ ho.2, Entity.collection_withCollection_of_ne _ _ ho.1]
    · rw [List.flatMap_cons, List.flatMap_cons, hsame _ hd.1, collection_of_cascadedAll hts]
      exact hts.append hus
    · rw [Written.entriesAll_append, hentries, hentries', List.map_append]

/-- All the writes for children make up their trees. -/
lemma BeginsEach.cascadedAll {op : Operation} {r : Relation} {parent : Record}
    {cs : List Entity} {xs : List Attempt} {left : Option (List Entity)}
    (h : u.BeginsEach op r parent cs xs left) (hm : u.MapsOnce) :
    ∀ cs', left = some cs' → ∃ ts, u.CascadedAll op parent (cs.map (r, ·)) (cs'.map (r, ·)) ts ∧
      Written.entriesAll ts = xs.map Attempt.entry := by
  match h with
  | .stop => exact fun _ h => nomatch h
  | .nil =>
    intro cs' h
    cases h
    exact ⟨[], .nil, rfl⟩
  | .within _ _ => exact fun _ h => nomatch h
  | @BeginsEach.cons _ _ _ _ c c₁ c' cs xs ys left receives head tail =>
    intro cs' h
    obtain ⟨rest, hrest, rfl⟩ := Option.map_eq_some_iff.mp h
    obtain ⟨t, ht, hentries⟩ := head.cascaded hm c' rfl
    obtain ⟨ts, hts, hentries'⟩ := tail.cascadedAll hm rest hrest
    refine ⟨t :: ts, .cons receives ht hts, ?_⟩
    rw [Written.entriesAll, hentries, hentries', List.map_append]

end

/-- All the writes of a plan make up its trees. -/
lemma BeginsAll.fulfils {plan left : List (Operation × EntityType × Entity)} {xs : List Attempt}
    (h : u.BeginsAll plan xs (some left)) (hm : u.MapsOnce) :
    ∃ forest, u.Fulfils plan left forest ∧
      Written.entriesAll forest = xs.map Attempt.entry := by
  generalize hleft : some left = l at h
  induction h generalizing left with
  | stop => cases hleft
  | nil =>
    cases hleft
    exact ⟨[], .nil, rfl⟩
  | within => cases hleft
  | cons head tail ih =>
    obtain ⟨rest, rfl, rfl⟩ := Option.map_eq_some_iff.mp hleft.symm
    obtain ⟨t, ht, hentries⟩ := head.cascaded hm _ rfl
    obtain ⟨forest, hforest, hentries'⟩ := ih rfl
    refine ⟨t :: forest, .cons ht hforest, ?_⟩
    rw [Written.entriesAll, hentries, hentries', List.map_append]

/-- A commit that goes through has made the writes of its plan one after another, between tables as
it found them and as it leaves them. -/
lemma Declared.commit_entries {Γ : Declarations} {w w' : World} {c : Committed} (hu : u.Declared Γ)
    (honce : u.MapsOnce) (h : u.commit.1 w = (.ok c, w')) :
    ∃ tx xs w₁ w₂ forest, w₁.rows = w.rows ∧ w'.rows = w₂.rows ∧ Attempts tx w₁ xs w₂ ∧
      (∀ x ∈ xs, u.Proper Γ x) ∧ u.CarriesOut u.plan forest ∧
      Written.entriesAll forest = xs.map Attempt.entry := by
  obtain ⟨tx, w₁, bs, p, closed, hopen, hall, hclosed, -⟩ := commit_eq_ok h
  have hmakes := u.makes_applyAll tx ⟨w₁, 0⟩
  rw [hall] at hmakes
  obtain ⟨xs, hadvanced, hbegins⟩ := hmakes
  obtain ⟨forest, hforest, hentries⟩ := hbegins.fulfils honce
  exact ⟨tx, xs, w₁, p.world, forest, World.rows_of_tables (tables_openFor hopen),
    World.rows_of_tables (Transaction.tables_tryCommit hclosed), hadvanced.attempts,
    hbegins.proper hu fun x hx => hu.has_plan hx, hforest.carriesOut, hentries⟩

end UnitOfWork

end EntityStore
