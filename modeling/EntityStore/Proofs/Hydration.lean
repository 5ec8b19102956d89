import EntityStore.Proofs.Ownership
import EntityStore.Proofs.RoundTrip

/-!
Finding entities together with what belongs to them. A search that ends has filled every mapped
navigation with the rows that belong to the entity, and theirs in turn; it ends unless it comes to
rows that go in circles.
-/

namespace EntityStore

open Fallible

/-! ### A bound on the depth -/

namespace Fallible

variable {σ ε α β : Type}

/-- What goes through in the one way goes through in the other, with the same result. -/
def Extends (x y : Fallible σ ε α) : Prop := ∀ s a s', x s = (.ok a, s') → y s = (.ok a, s')

lemma Extends.refl (x : Fallible σ ε α) : Extends x x := fun _ _ _ h => h

lemma Extends.bind {x : Fallible σ ε α} {f g : α → Fallible σ ε β} (h : ∀ a, Extends (f a) (g a)) :
    Extends (x >>= f) (x >>= g) := by
  intro s b s' hs
  obtain ⟨a, t, hx, hf⟩ := bind_eq_ok.mp hs
  exact bind_eq_ok.mpr ⟨a, t, hx, h a t b s' hf⟩

lemma Extends.bind_left {x y : Fallible σ ε α} {f : α → Fallible σ ε β} (h : Extends x y) :
    Extends (x >>= f) (y >>= f) := by
  intro s b s' hs
  obtain ⟨a, t, hx, hf⟩ := bind_eq_ok.mp hs
  exact bind_eq_ok.mpr ⟨a, t, h s a t hx, hf⟩

lemma Extends.trans {x y z : Fallible σ ε α} (h : Extends x y) (h' : Extends y z) : Extends x z :=
  fun s a s' hx => h' s a s' (h s a s' hx)

lemma Extends.mapM {f g : α → Fallible σ ε β} (h : ∀ a, Extends (f a) (g a)) (xs : List α) :
    Extends (xs.mapM f) (xs.mapM g) := by
  induction xs with
  | nil => exact .refl _
  | cons a xs ih =>
    rw [List.mapM_cons, List.mapM_cons]
    exact (h a).bind_left.trans (.bind fun b => ih.bind_left)

lemma Extends.foldlM {f g : β → α → Fallible σ ε β} (h : ∀ b a, Extends (f b a) (g b a))
    (xs : List α) (b : β) : Extends (xs.foldlM f b) (xs.foldlM g b) := by
  induction xs generalizing b with
  | nil => exact .refl _
  | cons a xs ih =>
    rw [List.foldlM_cons, List.foldlM_cons]
    exact (h b a).bind_left.trans (.bind fun b' => ih b')

end Fallible

namespace UnitOfWork

/-- Fill the navigation of a relation for one entity, and what hangs below it to a depth. -/
def fillIn (u : UnitOfWork) (depth : Nat) (r : Relation) (e : Entity) : Search Entity := do
  let children ← u.childrenOf r e
  let children ← u.hydrate depth r.child children
  return e.withCollection r.navigation children

lemma hydrate_succ (u : UnitOfWork) (depth : Nat) (T : EntityType) (es : List Entity) :
    u.hydrate (depth + 1) T es =
      (u.relationsOf T).foldlM (fun es r => es.mapM (u.fillIn depth r)) es := by
  rw [hydrate]
  rfl

/-- A search that ends within a depth ends so within every greater one. -/
lemma hydrate_extends (u : UnitOfWork) (depth : Nat) (T : EntityType) (es : List Entity) :
    Extends (u.hydrate depth T es) (u.hydrate (depth + 1) T es) := by
  induction depth generalizing T es with
  | zero =>
    have hnothing : ∀ rs : List Relation,
        rs.foldlM (fun es r => es.mapM (u.fillIn 0 r)) [] = (pure [] : Search (List Entity)) := by
      intro rs
      induction rs with
      | nil => rfl
      | cons r rs ih => exact ih
    intro w es' w' h
    unfold hydrate at h
    split at h
    · rename_i hend
      rcases Bool.or_eq_true_iff.mp hend with hnone | hnone
      · rw [List.isEmpty_iff.mp hnone] at h ⊢
        rw [hydrate_succ, hnothing]
        exact h
      · rw [hydrate_succ, List.isEmpty_iff.mp hnone]
        exact h
    · cases h
  | succ depth ih =>
    rw [hydrate_succ, hydrate_succ]
    refine Extends.foldlM (fun es r => Extends.mapM (fun e => ?_) es) _ es
    exact .bind fun children => (ih r.child children).bind_left

lemma findWithin_extends (u : UnitOfWork) {depth more : Nat} (h : depth ≤ more) (T : EntityType)
    (p : Expr) : Extends (u.findWithin depth T p) (u.findWithin more T p) := by
  induction h with
  | refl => exact .refl _
  | step _ ih =>
    refine ih.trans (.bind fun s => .bind fun es => ?_)
    exact u.hydrate_extends _ T es

/-! ### What is found -/

/-- What a search makes of a row: under each mapped navigation there are the rows that belong to it,
in the order of their table, with the same done to them. -/
inductive Hydrated (u : UnitOfWork) (w : World) : EntityType → Entity → Entity → Prop
  | mk {T : EntityType} {row e : Entity} (scalars : e.scalars = row.scalars)
    (names : e.children.map Prod.fst = row.children.map Prod.fst)
    (others : ∀ navigation, navigation ∉ (u.relationsOf T).map (·.navigation) →
      e.collection navigation = row.collection navigation)
    (lengths : ∀ r ∈ u.relationsOf T,
      (e.collection r.navigation).length = (u.childRows w r row).length)
    (children : ∀ r ∈ u.relationsOf T,
      ∀ p ∈ (u.childRows w r row).zip (e.collection r.navigation), Hydrated u w r.child p.1 p.2) :
    Hydrated u w T row e

/-- A row with the navigations of some relations filled. -/
structure Partly (u : UnitOfWork) (w : World) (rs : List Relation) (row e : Entity) : Prop where
  scalars : e.scalars = row.scalars
  names : e.children.map Prod.fst = row.children.map Prod.fst
  others : ∀ navigation, navigation ∉ rs.map (·.navigation) →
    e.collection navigation = row.collection navigation
  children : ∀ r ∈ rs,
    List.Forall₂ (u.Hydrated w r.child) (u.childRows w r row) (e.collection r.navigation)

variable {u : UnitOfWork} {Γ : Declarations} {w : World} {T : EntityType} {row e : Entity}
  {r : Relation} {rs : List Relation}

lemma Partly.nil (row : Entity) : u.Partly w [] row row := ⟨rfl, rfl, fun _ _ => rfl, by simp⟩

lemma Partly.snoc (h : u.Partly w rs row e) (hname : r.navigation ∈ row.children.map Prod.fst)
    (hnew : r.navigation ∉ rs.map (·.navigation)) {cs : List Entity}
    (hcs : List.Forall₂ (u.Hydrated w r.child) (u.childRows w r row) cs) :
    u.Partly w (rs ++ [r]) row (e.withCollection r.navigation cs) where
  scalars := h.scalars
  names := by rw [Entity.names_withCollection, h.names]
  others navigation hn := by
    rw [List.map_append, List.mem_append, not_or] at hn
    have hne : navigation ≠ r.navigation := by simpa using hn.2
    rw [Entity.collection_withCollection_of_ne _ _ hne]
    exact h.others navigation hn.1
  children q hq := by
    rcases List.mem_append.mp hq with hq | hq
    · have hne : q.navigation ≠ r.navigation := by
        intro heq
        exact hnew (heq ▸ List.mem_map_of_mem hq)
      rw [Entity.collection_withCollection_of_ne _ _ hne]
      exact h.children q hq
    · obtain rfl := List.mem_singleton.mp hq
      rw [Entity.collection_withCollection_self (h.names ▸ hname)]
      exact hcs

/-- With all relations done the row is hydrated. -/
lemma Partly.hydrated (h : u.Partly w (u.relationsOf T) row e) : u.Hydrated w T row e :=
  .mk h.scalars h.names h.others (fun r hr => (h.children r hr).length_eq.symm)
    fun r hr _ hp => List.forall₂_zip (h.children r hr) hp

/-- What is found has an end on every way down. -/
lemma Hydrated.acc (h : u.Hydrated w T row e) : Acc (fun y x => u.Owns w x y) (T.name, row) := by
  induction h with
  | @mk T row e scalars names others lengths children ih =>
    refine .intro _ fun y hy => ?_
    obtain ⟨r, hr, hparent, hchild, hmem⟩ := hy
    have hr : r ∈ u.relationsOf T := mem_relationsOf.mpr ⟨hr, hparent⟩
    have hmem : y.2 ∈ u.childRows w r row := hmem
    rw [← List.map_fst_zip (Nat.le_of_eq (lengths r hr).symm)] at hmem
    obtain ⟨p, hp, hpy⟩ := List.mem_map.mp hmem
    have hacc := ih r hr p hp
    rw [hpy, hchild] at hacc
    exact hacc

/-- Who comes to a circle does so by way of one of its own. -/
lemma Circles.step {x : String × Entity} (h : u.Circles w x) :
    ∃ y, u.Owns w x y ∧ u.Circles w y := by
  obtain ⟨y, hxy, hyy⟩ := h
  rcases Relation.ReflTransGen.cases_head hxy with rfl | ⟨z, hxz, hzy⟩
  · obtain ⟨z, hxz, hzx⟩ := Relation.TransGen.head'_iff.mp hyy
    exact ⟨z, hxz, x, hzx, hyy⟩
  · exact ⟨z, hxz, y, hzy, hyy⟩

/-- Where every way down has an end there is no circle. -/
lemma not_circles_of_acc {x : String × Entity} (h : Acc (fun y x => u.Owns w x y) x) :
    ¬u.Circles w x := by
  induction h with
  | intro x _ ih =>
    intro hx
    obtain ⟨y, hxy, hy⟩ := hx.step
    exact ih y hxy hy

/-! ### The search -/

/-- Down to a depth the rows of a type are hydrated, or one of them leads deeper. -/
def HydratesTo (u : UnitOfWork) (w : World) (depth : Nat) (T : EntityType) (rows : List Entity) :
    Prop :=
  Triple (· = w) (u.hydrate depth T rows)
    (fun es w' => w' = w ∧ List.Forall₂ (u.Hydrated w T) rows es)
    fun stop w' => w' = w ∧ stop = .tooDeep ∧ ∃ row ∈ rows, u.Descends w depth (T.name, row)

namespace Searchable

variable {depth : Nat} {rows : List Entity}

/-- One relation is filled for one entity. -/
lemma triple_fill (hu : u.Searchable Γ) (hw : u.Typed Γ w)
    (ih : ∀ {T : EntityType} {rows : List Entity}, (∀ row ∈ rows, Γ.Has T.name row) →
      u.HydratesTo w depth T rows)
    (hrow : Γ.Has T.name row) (hr : r ∈ u.relationsOf T)
    (hnew : r.navigation ∉ rs.map (·.navigation)) (he : u.Partly w rs row e) :
    Triple (· = w) (u.fillIn depth r e)
      (fun e' w' => w' = w ∧ u.Partly w (rs ++ [r]) row e')
      fun stop w' => w' = w ∧ stop = .tooDeep ∧ u.Descends w (depth + 1) (T.name, row) := by
  obtain ⟨hmem, hname⟩ := mem_relationsOf.mp hr
  have hfits : (Γ.of r.parent.name).Fits e.scalars := by
    rw [he.scalars, hname]
    exact hrow.scalars
  have hbelow : u.HydratesTo w depth r.child (u.childRows w r row) :=
    ih fun c hc => has_childRows hw hc
  intro w' hw'
  rw [hw', fillIn, bind_of_ok (hu.childrenOf_ok hw hmem hfits), childRows_congr he.scalars]
  refine Triple.bind_of (Triple.mono hbelow (fun _ h => h) (fun _ _ h => h) fun stop w' h => ?_)
    (fun cs hcs => ?_) w rfl
  · obtain ⟨hworld, hstop, c, hc, hdeep⟩ := h
    exact ⟨hworld, hstop, hdeep.succ ⟨r, hmem, hname, rfl, hc⟩⟩
  · exact Triple.pure fun _ h => ⟨h, he.snoc (hu.declared.mem_names hrow hr) hnew hcs⟩

/-- The remaining relations are filled one after another, each for all entities. -/
lemma triple_foldlM_fill (hu : u.Searchable Γ) (hw : u.Typed Γ w)
    (ih : ∀ {T : EntityType} {rows : List Entity}, (∀ row ∈ rows, Γ.Has T.name row) →
      u.HydratesTo w depth T rows)
    (hrows : ∀ row ∈ rows, Γ.Has T.name row) (rest : List Relation)
    (hrest : ∀ r ∈ rest, r ∈ u.relationsOf T) (hd : ((rs ++ rest).map (·.navigation)).Nodup)
    {es : List Entity} (hes : List.Forall₂ (u.Partly w rs) rows es) :
    Triple (· = w)
      (rest.foldlM (fun es r => es.mapM (u.fillIn depth r)) es)
      (fun es' w' => w' = w ∧ List.Forall₂ (u.Partly w (rs ++ rest)) rows es')
      fun stop w' => w' = w ∧ stop = .tooDeep ∧
        ∃ row ∈ rows, u.Descends w (depth + 1) (T.name, row) := by
  induction rest generalizing rs es with
  | nil =>
    rw [List.append_nil]
    exact Triple.pure fun _ h => ⟨h, hes⟩
  | cons r rest ihr =>
    have hnew : r.navigation ∉ rs.map (·.navigation) := by
      rw [List.map_append, List.map_cons] at hd
      intro hmem
      exact (List.nodup_append.mp hd).2.2 _ hmem _ (by simp) rfl
    rw [List.foldlM_cons]
    have hall : Triple (· = w) (es.mapM (u.fillIn depth r))
        (fun es' w' => w' = w ∧ List.Forall₂ (u.Partly w (rs ++ [r])) rows es')
        fun stop w' => w' = w ∧ stop = .tooDeep ∧
          ∃ row ∈ rows, u.Descends w (depth + 1) (T.name, row) := by
      refine Triple.mapM_forall₂ hes fun row hrow e he => ?_
      refine (hu.triple_fill hw ih (hrows row hrow) (hrest r (by simp)) hnew he).mono
        (fun _ h => h) (fun _ _ h => h) fun _ _ h => ?_
      exact ⟨h.1, h.2.1, row, hrow, h.2.2⟩
    refine hall.bind_of fun es' hes' => ?_
    have hrs : rs ++ r :: rest = (rs ++ [r]) ++ rest := by rw [List.append_assoc]; rfl
    rw [hrs] at hd ⊢
    exact ihr (fun q hq => hrest q (by simp [hq])) hd hes'

/-- Rows are hydrated down to any depth that is enough. -/
lemma hydratesTo (hu : u.Searchable Γ) (hw : u.Typed Γ w) (depth : Nat) :
    ∀ {T : EntityType} {rows : List Entity}, (∀ row ∈ rows, Γ.Has T.name row) →
      u.HydratesTo w depth T rows := by
  induction depth with
  | zero =>
    intro T rows hrows
    unfold HydratesTo hydrate
    split
    · rename_i hend
      refine Triple.pure fun _ h => ⟨h, ?_⟩
      rcases Bool.or_eq_true_iff.mp hend with hnone | hnone
      · rw [List.isEmpty_iff.mp hnone]
        exact .nil
      · refine List.forall₂_same.mpr fun row _ => Partly.hydrated ?_
        rw [List.isEmpty_iff.mp hnone]
        exact Partly.nil row
    · rename_i hmore
      have hne : rows ≠ [] := by
        rintro rfl
        exact hmore rfl
      obtain ⟨row, rest, rfl⟩ := List.exists_cons_of_ne_nil hne
      exact fun _ h => ⟨h, rfl, row, by simp, Descends.zero _⟩
  | succ depth ih =>
    intro T rows hrows
    have hes : List.Forall₂ (u.Partly w []) rows rows :=
      List.forall₂_same.mpr fun row _ => Partly.nil row
    have hall := hu.triple_foldlM_fill hw ih hrows (u.relationsOf T) (fun _ h => h)
      (by rw [List.nil_append]; exact hu.once.nodup_relationsOf T) hes
    rw [List.nil_append] at hall
    rw [HydratesTo, hydrate_succ]
    refine Triple.mono hall (fun _ h => h) (fun es w' h => ⟨h.1, ?_⟩) fun _ _ h => h
    exact h.2.imp fun _ _ h => h.hydrated

end Searchable

namespace Searchable

variable {depth : Nat} {s : DataStore} {p : Expr}

/-- A search whose predicate decides on every row hydrates those that satisfy it. -/
lemma findWithin_eq (hu : u.Searchable Γ) (hs : s ∈ u.stores)
    (hp : ∀ row ∈ w.rows s.table, ∃ b, p.satisfied s.type row = .ok b) (depth : Nat) :
    u.findWithin depth s.type p w =
      u.hydrate depth s.type ((w.rows s.table).filter (p.holds s.type)) w := by
  obtain ⟨t, ht⟩ := hu.memory s hs
  have hfind : s.find p w = (.ok ((w.rows s.table).filter (p.holds s.type)), w) := by
    rw [DataStore.find_memory ht]
    rcases Table.select_cases s.type p (w.rows s.table) with ⟨-, h⟩ | ⟨err, -, row, hrow, herr⟩
    · rw [h]
    · obtain ⟨b, hb⟩ := hp row hrow
      rw [hb] at herr
      cases herr
  have hstore : u.store s.type = .ok s := by rw [store, store?_of_mem hu.names hs]
  have hfirst : Search.ofStep (Fallible.ofExcept (u.store s.type)) w = (.ok s, w) := by
    rw [Search.ofStep, adapt_apply, ofExcept_apply, hstore]
    rfl
  have hsecond : Search.ofStep (s.find p) w =
      (.ok ((w.rows s.table).filter (p.holds s.type)), w) := by
    rw [Search.ofStep, adapt_apply, hfind]
    rfl
  rw [findWithin, bind_of_ok hfirst, bind_of_ok hsecond]

end Searchable

/-- **Searches end where rows do not go in circles, and are then exact.** A search whose predicate
decides on every row of its table ends just if from no row that satisfies it one comes to a circle;
the depth that the world suggests is enough then, and beyond it nothing changes. What it returns are
these rows in the order of their table, hydrated, and the world is as it was. -/
theorem find_hydrates (hu : u.Searchable Γ) (hw : u.Typed Γ w) {s : DataStore} (hs : s ∈ u.stores)
    {p : Expr} (hp : ∀ row ∈ w.rows s.table, ∃ b, p.satisfied s.type row = .ok b) :
    ((∃ depth es w', u.findWithin depth s.type p w = (.ok es, w')) ↔
      ∀ row ∈ (w.rows s.table).filter (p.holds s.type), ¬u.Circles w (s.type.name, row)) ∧
    ((∃ es w', u.find s.type p w = (.ok es, w')) ↔
      ∀ row ∈ (w.rows s.table).filter (p.holds s.type), ¬u.Circles w (s.type.name, row)) ∧
    (∀ depth more es w', depth ≤ more → u.findWithin depth s.type p w = (.ok es, w') →
      u.findWithin more s.type p w = (.ok es, w')) ∧
    (∀ depth, u.findWithin depth s.type p w = (.error .tooDeep, w) ∨
      ∃ es, u.findWithin depth s.type p w = (.ok es, w) ∧
        List.Forall₂ (u.Hydrated w s.type) ((w.rows s.table).filter (p.holds s.type)) es) ∧
    ∀ es w', u.find s.type p w = (.ok es, w') → w' = w ∧
      List.Forall₂ (u.Hydrated w s.type) ((w.rows s.table).filter (p.holds s.type)) es := by
  have hrows : ∀ row ∈ (w.rows s.table).filter (p.holds s.type), Γ.Has s.type.name row :=
    fun row hrow => hw s hs row (List.mem_of_mem_filter hrow)
  have hcases : ∀ depth, (u.findWithin depth s.type p w = (.error .tooDeep, w) ∧
        ∃ row ∈ (w.rows s.table).filter (p.holds s.type), u.Descends w depth (s.type.name, row)) ∨
      ∃ es, u.findWithin depth s.type p w = (.ok es, w) ∧
        List.Forall₂ (u.Hydrated w s.type) ((w.rows s.table).filter (p.holds s.type)) es := by
    intro depth
    have h := hu.hydratesTo hw depth hrows w rfl
    rw [hu.findWithin_eq hs hp]
    rcases hr : u.hydrate depth s.type ((w.rows s.table).filter (p.holds s.type)) w with
      ⟨stop | es, w'⟩
    · rw [hr] at h
      obtain ⟨rfl, rfl, hdeep⟩ := h
      exact .inl ⟨rfl, hdeep⟩
    · rw [hr] at h
      obtain ⟨rfl, hes⟩ := h
      exact .inr ⟨es, rfl, hes⟩
  have hend : ∀ depth es w', u.findWithin depth s.type p w = (.ok es, w') →
      ∀ row ∈ (w.rows s.table).filter (p.holds s.type), ¬u.Circles w (s.type.name, row) := by
    intro depth es w' h row hrow
    rcases hcases depth with ⟨hdeep, -⟩ | ⟨es', -, hes'⟩
    · rw [hdeep] at h
      cases h
    · obtain ⟨e, -, he⟩ := exists_mem_of_forall₂ hes'.flip hrow
      exact not_circles_of_acc he.acc
  have henough : (∀ row ∈ (w.rows s.table).filter (p.holds s.type),
      ¬u.Circles w (s.type.name, row)) → ∃ es, u.findWithin w.depth s.type p w = (.ok es, w) := by
    intro hnone
    rcases hcases w.depth with ⟨-, row, hrow, hdeep⟩ | ⟨es, hes, -⟩
    · have hle := hu.descends_le (hnone row hrow) hdeep
      have hlt := w.size_lt_depth
      omega
    · exact ⟨es, hes⟩
  have hfind : u.find s.type p w = u.findWithin w.depth s.type p w := bind_of_ok (get_apply w)
  refine ⟨⟨?_, ?_⟩, ⟨?_, ?_⟩, fun depth more es w' hle => u.findWithin_extends hle s.type p w es w',
    fun depth => ?_, fun es w' h => ?_⟩
  · rintro ⟨depth, es, w', h⟩
    exact hend depth es w' h
  · intro hnone
    obtain ⟨es, hes⟩ := henough hnone
    exact ⟨w.depth, es, w, hes⟩
  · rintro ⟨es, w', h⟩
    exact hend w.depth es w' (hfind ▸ h)
  · intro hnone
    obtain ⟨es, hes⟩ := henough hnone
    exact ⟨es, w, hfind ▸ hes⟩
  · exact (hcases depth).imp_left And.left
  · rw [hfind] at h
    rcases hcases w.depth with ⟨hdeep, -⟩ | ⟨es', hok, hes'⟩
    · rw [hdeep] at h
      cases h
    · rw [hok] at h
      cases h
      exact ⟨rfl, hes'⟩

end UnitOfWork

namespace Archive

lemma archive_searchable : archive.Searchable types where
  declared := archive_relational.declared
  names := archive_relational.names
  tables := archive_relational.tables
  memory s hs := by
    obtain ⟨t, ht⟩ := archive_relational.generates s hs
    exact ⟨t, ht.storage⟩
  children r hr := by
    obtain ⟨s, hs, -⟩ := archive_relational.children r hr
    rw [hs]
    rfl
  once := archive_relational.once
  comparable r hr := by
    refine .inl ⟨?_, archive_relational.integers r hr⟩
    rcases List.mem_pair.mp hr with rfl | rfl <;> exact ⟨.int32, rfl, rfl⟩

/-- Shelves where a folder was put into itself. -/
def tangled : World where
  tables := [("folders", [folder 1 none "all" [] [], folder 7 (some 1) "letters" [] [],
      folder 9 (some 9) "knot" [] []]),
    ("documents", [document (-4) 7 "Reply"])]
  backends := [(.memory "archive", .journal none)]

lemma folder_of_mem {row : Entity} (h : row ∈ tangled.rows "folders") :
    ∃ id parent name, row = folder id parent name [] [] := by
  have h : row ∈ [folder 1 none "all" [] [], folder 7 (some 1) "letters" [] [],
    folder 9 (some 9) "knot" [] []] := h
  simp only [List.mem_cons, List.not_mem_nil, or_false] at h
  rcases h with rfl | rfl | rfl <;> exact ⟨_, _, _, rfl⟩

lemma tangled_typed : archive.Typed types tangled := by
  intro s hs row hrow
  rcases List.mem_pair.mp hs with rfl | rfl
  · rw [List.mem_singleton.mp hrow]
    exact document_has _ _ _
  · obtain ⟨id, parent, name, rfl⟩ := folder_of_mem hrow
    exact folder_has (by simp) (by simp)

/-- The folders with a key. -/
def keyed (i : Int64) : Expr := .binary .eq (.field "folderId") (.constant (.int i))

lemma keyed_decides (i : Int64) : ∀ row ∈ tangled.rows "folders",
    ∃ b, (keyed i).satisfied folderType.type row = .ok b := by
  intro row hrow
  obtain ⟨id, parent, name, rfl⟩ := folder_of_mem hrow
  exact ⟨_, rfl⟩

/-- A folder is found with what is in it, and in the folders in it; the search for the one that is
in itself does not end. -/
theorem tangled_found :
    archive.find folderType.type (keyed 1) tangled =
      (.ok [folder 1 none "all" [folder 7 (some 1) "letters" [] [document (-4) 7 "Reply"]] []],
        tangled) ∧
    ¬archive.Circles tangled ("Folder", folder 1 none "all" [] []) ∧
    ∀ depth, archive.findWithin depth folderType.type (keyed 9) tangled =
      (.error .tooDeep, tangled) := by
  have hfolders : ⟨folderAdapter, [⟨.insert, music⟩, ⟨.insert, folder 3 none "empty" [] []⟩]⟩ ∈
      archive.stores := List.mem_cons_of_mem _ List.mem_cons_self
  obtain ⟨-, hfind, -⟩ := UnitOfWork.find_hydrates archive_searchable tangled_typed hfolders
    (keyed_decides 1)
  obtain ⟨hends, -, -, hdepth, -⟩ := UnitOfWork.find_hydrates archive_searchable tangled_typed
    hfolders (keyed_decides 9)
  have hfound : archive.find folderType.type (keyed 1) tangled =
      (.ok [folder 1 none "all" [folder 7 (some 1) "letters" [] [document (-4) 7 "Reply"]] []],
        tangled) := by rfl
  refine ⟨hfound, hfind.mp ⟨_, _, hfound⟩ _ List.mem_cons_self, fun depth => ?_⟩
  rcases hdepth depth with h | ⟨es, h, -⟩
  · exact h
  · have hself : archive.Owns tangled ("Folder", folder 9 (some 9) "knot" [] [])
        ("Folder", folder 9 (some 9) "knot" [] []) :=
      ⟨subfolders, List.mem_cons_self, rfl, rfl, List.mem_cons_self⟩
    exact absurd ⟨_, .refl, .single hself⟩ (hends.mp ⟨depth, es, _, h⟩ _ List.mem_cons_self)

end Archive

end EntityStore
