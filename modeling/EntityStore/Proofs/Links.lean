import EntityStore.Proofs.RoundTrip

/-!
Children take over a value of their parent. A commit that goes through leaves every child, on every
level, with what its parent shows in the joined field once the parent was written; and with that
value the child was sent to its own store.
-/

namespace EntityStore

open Fallible

/-! ### Kinds of field apart from nulls -/

namespace FieldKind

/-- The kind of a field without its leave to hold nulls. -/
def base : FieldKind → FieldKind
  | optional k => k.base
  | k => k

lemma Shows.eq_null_or_base {k : FieldKind} {v : Value} (h : k.Shows v) :
    v = .null ∨ k.base.Shows v := by
  obtain ⟨c, rfl⟩ := h
  induction k with
  | optional k ih =>
    rcases c with _ | c
    · exact .inl rfl
    · exact ih c
  | _ => exact .inr ⟨c, rfl⟩

/-- A kind that takes a null, or what its base kind shows, shows the same. -/
lemma toValue_of_ofValue? {k : FieldKind} {v : Value} (h : v = .null ∨ k.base.Shows v)
    {c : k.Content} (hc : k.ofValue? v = some c) : k.toValue c = v := by
  induction k with
  | optional k ih =>
    by_cases hn : v.isNull
    · cases v <;> cases hn
      cases hc
      rfl
    · rw [ofValue?, if_neg hn] at hc
      obtain ⟨c', hc', rfl⟩ := Option.map_eq_some_iff.mp hc
      exact ih h hc'
  | _ =>
    rcases h with rfl | ⟨c₀, rfl⟩
    · cases (show none = some c from hc)
    · obtain ⟨c', hc', hv⟩ := ofValue?_toValue _ c₀
      cases hc.symm.trans hc'
      exact hv

/-- What one kind shows another of the same base kind stores as it is, or refuses. -/
lemma eq_of_stored {k k' : FieldKind} (hbase : k.base = k'.base) {v v' : Value} (hv : k.Shows v)
    {field : String} (h : k'.stored field v = .ok v') : v' = v := by
  unfold stored at h
  split at h
  · rename_i c hc
    cases h
    exact toValue_of_ofValue? (hbase ▸ hv.eq_null_or_base) hc
  · cases h

end FieldKind

/-! ### One child -/

/-- A write gives a value at most to a generated key. -/
lemma Adapter.Leaves.get_of_ne {Γ : Declarations} {a : Adapter} (ha : a.Declared Γ)
    {op : Operation} {e e' : Entity} (h : a.Leaves op e e') {field : String}
    (hkey : a.schema.generated = true → a.schema.key ≠ field) :
    a.type.get e'.scalars field = a.type.get e.scalars field := by
  unfold Leaves at h
  split at h
  · rename_i hc
    obtain ⟨key, h⟩ := h
    rw [ha.type] at h ⊢
    obtain ⟨r, hr, rfl⟩ := Declarations.assign_eq_ok h
    obtain ⟨k, v, -, -, rfl⟩ := Declaration.put_eq_ok hr
    exact (Record.lookup_put _ _ _ _).trans (if_neg (Ne.symm (hkey hc.2)))
  · rw [h]

namespace Relation

/-- The fields of the join are of the same kind, apart from nulls. -/
def Matches (Γ : Declarations) (r : Relation) : Prop :=
  ∃ k k', (Γ.of r.parent.name).fields.lookup r.join.parentField = some k ∧
    (Γ.of r.child.name).fields.lookup r.join.childField = some k' ∧ k.base = k'.base

/-- What the parent shows in its field the child shows in its own, and so did the record that was
sent for it. -/
def Links (r : Relation) (parent child : Entity) (sent : Record) : Prop :=
  ∃ v, r.parent.read? parent r.join.parentField = some v ∧
    r.child.read? child r.join.childField = some v ∧
    r.child.get sent r.join.childField = some v

end Relation

/-- What was sent for the entity at the top. -/
def Written.sent : Written → Record
  | node _ _ sent _ _ => sent

namespace UnitOfWork

/-- The field of the child is not a key that the store of the child generates. -/
def Assigns (u : UnitOfWork) (r : Relation) : Prop :=
  ∀ s, u.store? r.child.name = some s → s.adapter.schema.generated = true →
    s.adapter.schema.key ≠ r.join.childField

section

variable {u : UnitOfWork} {Γ : Declarations} {op : Operation} {r : Relation}
  {parent c c₁ c' : Entity} {left : Record} {t : Written}

lemma Receives.has (hr : r.Declared Γ) (h : Receives op left r c c₁) (hc : Γ.Has r.child.name c) :
    Γ.Has r.child.name c₁ := by
  unfold Receives at h
  split at h
  · rw [h]
    exact hc
  · obtain ⟨v, -, h⟩ := h
    rw [hr.child] at h
    exact hc.assign h

/-- A child receives what its parent shows. -/
lemma Receives.get_eq (hr : r.Declared Γ) (hm : r.Matches Γ) (hop : op ≠ .delete)
    (hleft : (Γ.of r.parent.name).Fits left) (hc : (Γ.of r.child.name).Fits c.scalars)
    (h : Receives op left r c c₁) : ∃ v, r.parent.get left r.join.parentField = some v ∧
      r.child.get c₁.scalars r.join.childField = some v := by
  obtain ⟨k, k', hk, hk', hbase⟩ := hm
  unfold Receives at h
  rw [if_neg hop] at h
  obtain ⟨v, hv, h⟩ := h
  refine ⟨v, hv, ?_⟩
  rw [hr.parent] at hv
  rw [hr.child] at h ⊢
  obtain ⟨v₀, hv₀, hshows⟩ := hleft.shows _ k hk
  obtain rfl : v₀ = v := Option.some.inj (hv₀.symm.trans hv)
  obtain ⟨_, hput, rfl⟩ := Declarations.assign_eq_ok h
  obtain ⟨k'', v', hk'', hstored, rfl⟩ := Declaration.put_eq_ok hput
  obtain rfl : k' = k'' := Option.some.inj (hk'.symm.trans hk'')
  obtain rfl := FieldKind.eq_of_stored hbase hshows hstored
  obtain ⟨w, hw, -⟩ := hc.shows _ k' hk'
  refine (Record.lookup_put _ _ _ _).trans ?_
  rw [if_pos rfl, hw]
  rfl

/-- And it is left with it. -/
lemma Receives.links (hu : u.Declared Γ) (hr : r ∈ u.relations) (hm : r.Matches Γ)
    (ha : u.Assigns r) (hop : op ≠ .delete) (hparent : (Γ.of r.parent.name).Fits parent.scalars)
    (hc : Γ.Has r.child.name c) (h : Receives op parent.scalars r c c₁) {op' : Operation}
    (ht : u.Cascaded op' r.child c₁ c' t) : r.Links parent c' t.sent := by
  have hd := hu.relations r hr
  obtain ⟨v, hv, hsent⟩ := h.get_eq hd hm hop hparent hc.scalars
  cases ht with
  | @node _ _ _ c₂ _ ts s store leaves scalars below =>
    obtain ⟨hadapter, htype⟩ := hu.adapter store
    have hget := leaves.get_of_ne hadapter (ha s store)
    rw [htype, ← hd.child, ← scalars] at hget
    exact ⟨v, hv, hget.trans hsent, hsent⟩

end

/-! ### All children -/

section

variable (u : UnitOfWork) (Γ : Declarations)

mutual

/-- On every level below an entity the children are linked to their parents, where the fields of the
relation match and the field of the child is not a generated key. -/
inductive Linked : EntityType → Entity → Written → Prop
  | node {op : Operation} {T : EntityType} {e : Entity} {sent : Record} {ts : List Written}
    (below : LinkedAll e (u.below T e) ts) : Linked T e (.node op T.name sent e.scalars ts)

/-- The children are linked to the parent, each with the tree of its writes. -/
inductive LinkedAll : Entity → List (Relation × Entity) → List Written → Prop
  | nil {parent : Entity} : LinkedAll parent [] []
  | cons {parent : Entity} {r : Relation} {c : Entity} {t : Written}
    {rcs : List (Relation × Entity)} {ts : List Written}
    (links : r.Matches Γ → u.Assigns r → r.Links parent c t.sent) (head : Linked r.child c t)
    (tail : LinkedAll parent rcs ts) : LinkedAll parent ((r, c) :: rcs) (t :: ts)

end

end

variable {u : UnitOfWork} {Γ : Declarations}

lemma childOperation_ne_delete {op : Operation} (h : op ≠ .delete) (r : Relation) (c : Entity) :
    u.childOperation op r c ≠ .delete := by
  unfold childOperation
  split
  · decide
  · exact h

mutual

/-- What writes leave is linked, unless they delete. -/
lemma Cascaded.linked (hu : u.Declared Γ) {op : Operation} {T : EntityType} {e e' : Entity}
    {t : Written} (h : u.Cascaded op T e e' t) (hop : op ≠ .delete) (he : Γ.Has T.name e) :
    u.Linked Γ T e' t := by
  cases h with
  | @node _ _ _ e₁ _ ts s store leaves scalars below =>
    obtain ⟨hadapter, htype⟩ := hu.adapter store
    have hname : s.adapter.type.name = T.name := by rw [htype, Declarations.name_type]
    have he₁ := leaves.has hadapter (hname ▸ he)
    rw [hname] at he₁
    rw [← scalars] at below ⊢
    refine .node (below.linkedAll hu hop fun rc hrc => ?_)
    obtain ⟨hr, hc⟩ := mem_below.mp hrc
    obtain ⟨hmem, hparent⟩ := mem_relationsOf.mp hr
    exact ⟨hmem, by rw [hparent, scalars]; exact he₁.scalars, hu.has_child he hr hc⟩

lemma CascadedAll.linkedAll (hu : u.Declared Γ) {op : Operation} {parent : Entity}
    {rcs rcs' : List (Relation × Entity)} {ts : List Written}
    (h : u.CascadedAll op parent.scalars rcs rcs' ts) (hop : op ≠ .delete)
    (hrcs : ∀ rc ∈ rcs, rc.1 ∈ u.relations ∧ (Γ.of rc.1.parent.name).Fits parent.scalars ∧
      Γ.Has rc.1.child.name rc.2) : u.LinkedAll Γ parent rcs' ts := by
  cases h with
  | nil => exact .nil
  | @cons _ _ r c c₁ c' t rcs rcs' ts receives head tail =>
    obtain ⟨hr, hparent, hc⟩ := hrcs _ List.mem_cons_self
    have hc₁ := receives.has (hu.relations r hr) hc
    refine .cons (fun hm ha => receives.links hu hr hm ha hop hparent hc head) ?_ ?_
    · exact head.linked hu (childOperation_ne_delete hop r c₁) hc₁
    · exact tail.linkedAll hu hop fun rc hrc => hrcs rc (List.mem_cons_of_mem _ hrc)

end

lemma Fulfils.linked (hu : u.Declared Γ) {plan left : List (Operation × EntityType × Entity)}
    {forest : List Written} (h : u.Fulfils plan left forest)
    (hplan : ∀ x ∈ plan, Γ.Has x.2.1.name x.2.2) :
    List.Forall₂ (fun x t => x.1 ≠ .delete → u.Linked Γ x.2.1 x.2.2 t) left forest := by
  induction h with
  | nil => exact .nil
  | cons head _ ih =>
    refine .cons (fun hop => head.linked hu hop (hplan _ List.mem_cons_self)) ?_
    exact ih fun x hx => hplan x (List.mem_cons_of_mem _ hx)

/-- **Foreign keys follow their parents.** A commit that goes through has fulfilled its plan with
what the batches hold in the end, and reports the inserted entities among it. In every tree that was
inserted or updated each child, on each level, has in its joined field what its parent shows after
it was written; and the write of the child, one of those that the commit made, bore it too. -/
theorem commit_links (hu : u.Declared Γ) (hm : u.MapsOnce) {w w' : World} {c : Committed}
    (h : u.commit.1 w = (.ok c, w')) :
    ∃ tx w₁ bs p forest, u.openFor u.types w = (.ok tx, w₁) ∧
      u.applyAll tx u.batches ⟨w₁, 0⟩ = (.ok bs, p) ∧ c.inserted = bs.map Batch.inserted ∧
      u.Fulfils u.plan (Batch.plan bs) forest ∧
      w'.writes = w.writes ++ Written.orderAll forest ∧
      List.Forall₂ (fun x t => x.1 ≠ .delete → u.Linked Γ x.2.1 x.2.2 t)
        (Batch.plan bs) forest := by
  obtain ⟨tx, w₁, bs, p, closed, hopen, hall, hclosed, rfl⟩ := commit_eq_ok h
  obtain ⟨forest, hforest, hmade⟩ := applyAll_ok hm hall
  refine ⟨tx, w₁, bs, p, forest, hopen, hall, rfl, hforest, ?_, ?_⟩
  · rw [(quiet_tryCommit tx).ok hclosed, hmade.writes, (u.quiet_openFor _).ok hopen]
  · exact hforest.linked hu fun x hx => hu.has_plan hx

end UnitOfWork

namespace Archive

/-- A stored folder is buffered to be updated, with a new one below it and another below that. -/
def shelving : UnitOfWork where
  stores := [⟨documentAdapter, []⟩, ⟨folderAdapter, [⟨.update, folder 7 (some 1) "letters"
    [folder 0 none "sent" [folder 0 none "abroad" [] []] []] []⟩]⟩]
  relations := [subfolders, documents]

lemma shelving_declared : shelving.Declared types where
  stores s hs := by
    rcases List.mem_pair.mp hs with rfl | rfl
    · exact ⟨documentAdapter_generates.declared, by simp⟩
    · refine ⟨folderAdapter_generates.declared, fun q hq => ?_⟩
      rw [List.mem_singleton.mp hq]
      refine folder_has (fun c hc => ?_) (by simp)
      rw [List.mem_singleton.mp hc]
      refine folder_has (fun c hc => ?_) (by simp)
      rw [List.mem_singleton.mp hc]
      exact folder_has (by simp) (by simp)
  relations := archive_relational.declared.relations

lemma subfolders_matches : subfolders.Matches types := ⟨.int32, .optional .int32, rfl, rfl, rfl⟩

lemma shelving_assigns : shelving.Assigns subfolders := by
  intro s hs _
  cases hs
  decide

/-- The first new folder gets the key of the one that is updated, the second gets the key that the
first was just given. -/
def shelvingWrites : List Write :=
  [⟨.update, "Folder", [("folderId", .int 7), ("parentId", .int 1), ("name", .text "letters")]⟩,
    ⟨.insert, "Folder", [("folderId", .int 0), ("parentId", .int 7), ("name", .text "sent")]⟩,
    ⟨.insert, "Folder", [("folderId", .int 0), ("parentId", .int 8), ("name", .text "abroad")]⟩]

lemma shelving_writes : (shelving.commit.1 shelves).1.isOk ∧
    (shelving.commit.1 shelves).2.writes = shelvingWrites := by
  constructor
  · cbv
  · cbv

theorem shelving_linked : subfolders.Matches types ∧ shelving.Assigns subfolders ∧
    ∃ c w' bs forest, shelving.commit.1 shelves = (.ok c, w') ∧ w'.writes = shelvingWrites ∧
      w'.writes = shelves.writes ++ Written.orderAll forest ∧
      List.Forall₂ (fun x t => x.1 ≠ .delete → shelving.Linked types x.2.1 x.2.2 t)
        (Batch.plan bs) forest := by
  obtain ⟨hok, hwrites⟩ := shelving_writes
  rcases h : shelving.commit.1 shelves with ⟨err | c, w'⟩
  · rw [h] at hok
    cases hok
  · rw [h] at hwrites
    obtain ⟨tx, w₁, bs, p, forest, -, -, -, -, hforest, hlinked⟩ :=
      UnitOfWork.commit_links shelving_declared archive_relational.once h
    exact ⟨subfolders_matches, shelving_assigns, c, w', bs, forest, rfl, hwrites, hforest, hlinked⟩

end Archive

end EntityStore
