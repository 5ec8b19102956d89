import EntityStore.Proofs.Boundary

/-!
Writes keep the shape of trees. They change scalars, and put into each collection what they made of
the entities in it; so what a commit writes, type by type, can be told from what was buffered, also
where a navigation is mapped more than once.
-/

namespace EntityStore

open Fallible

lemma flatMap_congr_of_forall₂ {α β : Type} {R : α → α → Prop} {f : α → List β} {l l' : List α}
    (h : List.Forall₂ R l' l) (hf : ∀ a', ∀ a ∈ l, R a' a → f a' = f a) :
    l'.flatMap f = l.flatMap f := by
  induction h with
  | nil => rfl
  | @cons a' a l' l ha _ ih =>
    rw [List.flatMap_cons, List.flatMap_cons, hf a' a (by simp) ha,
      ih fun b' b hb => hf b' b (by simp [hb])]

/-! ### Shapes -/

/-- What is left of a tree of entities when the scalars are taken out, as its collections show
it. -/
inductive Shape where
  | mk (collections : String → List Shape)

namespace Entity

def shape (e : Entity) : Shape :=
  .mk fun navigation => (e.collection navigation).attach.map fun ⟨c, _⟩ => shape c
termination_by e.height
decreasing_by exact height_lt_of_mem_collection (by assumption)

lemma shape_eq (e : Entity) :
    e.shape = .mk fun navigation => (e.collection navigation).map shape := by
  rw [shape]
  congr 1
  funext navigation
  exact List.attach_map_val (f := shape)

/-- Trees have the same shape if under each navigation they have. -/
lemma shape_eq_iff {e e' : Entity} : e'.shape = e.shape ↔ ∀ navigation,
    List.Forall₂ (fun c' c => c'.shape = c.shape) (e'.collection navigation)
      (e.collection navigation) := by
  rw [shape_eq, shape_eq, Shape.mk.injEq, funext_iff]
  refine forall_congr' fun navigation => ?_
  rw [← List.forall₂_eq_eq_eq, List.forall₂_map_left_iff, List.forall₂_map_right_iff]

lemma shape_congr {e e' : Entity} (h : e'.children = e.children) : e'.shape = e.shape :=
  shape_eq_iff.mpr fun _ => by
    rw [collection_congr h]
    exact List.forall₂_same.mpr fun _ _ => rfl

/-- To put into a collection what has the shape of what was in it. -/
lemma shape_withCollection {e : Entity} {navigation : String}
    (hname : navigation ∈ e.children.map Prod.fst) {cs : List Entity}
    (h : List.Forall₂ (fun c' c => c'.shape = c.shape) cs (e.collection navigation)) :
    (e.withCollection navigation cs).shape = e.shape := by
  refine shape_eq_iff.mpr fun other => ?_
  by_cases ho : other = navigation
  · rw [ho, collection_withCollection_self hname]
    exact h
  · rw [collection_withCollection_of_ne _ _ ho]
    exact List.forall₂_same.mpr fun _ _ => rfl

end Entity

namespace UnitOfWork

section Itinerary

variable (u : UnitOfWork)

/-- The types of the writes for an entity and what hangs below it, in order; `up` says whether an
entity comes after what hangs below it. -/
def itinerary (up : Bool) (T : EntityType) (e : Entity) : List String :=
  let below := (u.below T e).attach.flatMap fun ⟨(r, c), _⟩ => itinerary up r.child c
  if up then below ++ [T.name] else T.name :: below
termination_by e.height
decreasing_by
  rename_i h
  obtain ⟨r, -, h⟩ := List.mem_flatMap.mp h
  obtain ⟨c, hc, h⟩ := List.mem_map.mp h
  cases h
  exact Entity.height_lt_of_mem_collection hc

/-- The types of the writes for what hangs below an entity along some relations. -/
def itineraryAlong (up : Bool) (rs : List Relation) (e : Entity) : List String :=
  rs.flatMap fun r => (e.collection r.navigation).flatMap (u.itinerary up r.child)

end Itinerary

variable {u : UnitOfWork} {tx : Transaction} {phase : Phase} {op : Operation} {T : EntityType}
  {e e' c c' : Entity} {r : Relation} {rs : List Relation} {p p' : Progress}

lemma itinerary_eq (up : Bool) (T : EntityType) (e : Entity) : u.itinerary up T e =
    if up then u.itineraryAlong up (u.relationsOf T) e ++ [T.name]
    else T.name :: u.itineraryAlong up (u.relationsOf T) e := by
  have hbelow : ((u.below T e).attach.flatMap fun rc => u.itinerary up rc.1.1.child rc.1.2) =
      u.itineraryAlong up (u.relationsOf T) e := by
    rw [List.flatMap_def, List.attach_map_val
      (f := fun rc : Relation × Entity => u.itinerary up rc.1.child rc.2), ← List.flatMap_def,
      below, List.flatMap_assoc, itineraryAlong]
    refine List.flatMap_congr fun r _ => ?_
    rw [List.flatMap_map]
  rw [itinerary]
  exact hbelow ▸ rfl

/-- The itinerary can be told from the shape. -/
lemma itinerary_congr (up : Bool) (h : e'.shape = e.shape) :
    u.itinerary up T e' = u.itinerary up T e := by
  induction hn : e.height using Nat.strong_induction_on generalizing T e e' with
  | h n ih =>
    subst hn
    have halong : u.itineraryAlong up (u.relationsOf T) e' =
        u.itineraryAlong up (u.relationsOf T) e := by
      refine List.flatMap_congr fun r _ => flatMap_congr_of_forall₂ (Entity.shape_eq_iff.mp h _) ?_
      exact fun c' c hc hshape => ih _ (Entity.height_lt_of_mem_collection hc) hshape rfl
    rw [itinerary_eq, itinerary_eq, halong]

lemma itineraryAlong_congr (up : Bool) (rs : List Relation) (h : e'.shape = e.shape) :
    u.itineraryAlong up rs e' = u.itineraryAlong up rs e :=
  List.flatMap_congr fun _ _ => flatMap_congr_of_forall₂ (Entity.shape_eq_iff.mp h _)
    fun _ _ _ hshape => itinerary_congr up hshape

/-! ### One tree -/

end UnitOfWork

/-- What is deleted goes after what hangs below it. -/
def Operation.ascends : Operation → Bool
  | .delete => true
  | _ => false

/-- Between two points of a commit an entity of limited height was put in the place of another of
the same shape, with writes of the given types. -/
structure Passed (levels : Nat) (e e' : Entity) (types : List String) (p p' : Progress) : Prop where
  height : e'.height ≤ levels
  shape : e'.shape = e.shape
  made : ∃ ws, Made p p' ws ∧ ws.map Write.type = types

namespace Passed

variable {levels : Nat} {e e₁ e' : Entity} {types types' : List String} {p p₁ p' : Progress}

lemma of_children (hh : e.height ≤ levels) (h : e'.children = e.children) (p : Progress) :
    Passed levels e e' [] p p :=
  ⟨Entity.height_congr h ▸ hh, Entity.shape_congr h, [], .nil _, rfl⟩

lemma append (h : Passed levels e e₁ types p p₁) (h' : Passed levels e₁ e' types' p₁ p') :
    Passed levels e e' (types ++ types') p p' := by
  obtain ⟨ws, hmade, rfl⟩ := h.made
  obtain ⟨ws', hmade', rfl⟩ := h'.made
  exact ⟨h'.height, h'.shape.trans h.shape, ws ++ ws', hmade.append hmade', List.map_append⟩

end Passed

namespace UnitOfWork

variable {u : UnitOfWork} {tx : Transaction} {phase : Phase} {op : Operation} {T : EntityType}
  {e e₁ e' c c' : Entity} {r : Relation} {rs : List Relation} {p p₁ p' : Progress} {levels : Nat}
  {below : Phase → EntityType → Entity → Committing Entity}

lemma write_passed (hh : e.height ≤ levels) (h : u.write tx phase op T e p = (.ok e', p')) :
    Passed levels e e' [T.name] p p' := by
  obtain ⟨s, -, hleaves, hmade⟩ := write_ok h
  exact ⟨Entity.height_congr hleaves.children ▸ hh, Entity.shape_congr hleaves.children, _, hmade,
    rfl⟩

/-- Below entities of limited height what is passed by follows their itinerary. -/
def PassesBelow (u : UnitOfWork) (levels : Nat)
    (below : Phase → EntityType → Entity → Committing Entity) : Prop :=
  ∀ op T e e' p p', e.height ≤ levels → below (Operation.phase op) T e p = (.ok e', p') →
    Passed levels e e' (u.itineraryAlong op.ascends (u.relationsOf T) e) p p'

lemma passed_down (op : Operation) (hb : u.PassesBelow levels below) (hop : op.ascends = false)
    (hh : e.height ≤ levels) (hw : u.write tx phase op T e p = (.ok e₁, p₁))
    (h : below op.phase T e₁ p₁ = (.ok e', p')) :
    Passed levels e e' (u.itinerary false T e) p p' := by
  have hfirst := write_passed hh hw
  have hrest := hb op T e₁ e' p₁ p' hfirst.height h
  rw [hop, itineraryAlong_congr _ _ hfirst.shape] at hrest
  rw [itinerary_eq, if_neg Bool.false_ne_true]
  exact hfirst.append hrest

lemma passed_up (hb : u.PassesBelow levels below) (hh : e.height ≤ levels)
    (h : below .delete T e p = (.ok e₁, p₁))
    (hw : u.write tx phase .delete T e₁ p₁ = (.ok e', p')) :
    Passed levels e e' (u.itinerary true T e) p p' := by
  have hfirst := hb .delete T e e₁ p p₁ hh h
  rw [itinerary_eq, if_pos rfl]
  exact hfirst.append (write_passed hfirst.height hw)

lemma writeChild_passed (hb : u.PassesBelow levels below) (hh : c.height ≤ levels) {s : Schema}
    {v : Value} (h : u.writeChild tx below op.phase r s v c p = (.ok c', p')) :
    Passed levels c c' (u.itinerary op.ascends r.child c) p p' := by
  have hassigned : ∀ {c₁}, r.child.assign c r.join.childField v = .ok c₁ →
      Passed levels c c₁ [] p p := by
    intro c₁ ha
    have hchildren : c₁.children = c.children := by
      obtain ⟨_, -, rfl⟩ := Declarations.assign_eq_ok ha
      rfl
    exact .of_children hh hchildren p
  cases op with
  | insert =>
    obtain ⟨c₁, p₁, ha, h⟩ := bind_eq_ok.mp h
    obtain ⟨hassign, rfl⟩ := Committing.ofExcept_eq_ok ha
    have hfirst := hassigned hassign
    obtain ⟨c₂, p₂, hw, h⟩ := bind_eq_ok.mp h
    rw [← itinerary_congr _ hfirst.shape]
    exact hfirst.append (passed_down .insert hb rfl hfirst.height hw h)
  | update =>
    obtain ⟨c₁, p₁, ha, h⟩ := bind_eq_ok.mp h
    obtain ⟨hassign, rfl⟩ := Committing.ofExcept_eq_ok ha
    have hfirst := hassigned hassign
    rw [← itinerary_congr _ hfirst.shape]
    by_cases hc : s.isTransient r.child c₁
    · rw [if_pos hc] at h
      obtain ⟨c₂, p₂, hw, h⟩ := bind_eq_ok.mp h
      exact hfirst.append (passed_down .insert hb rfl hfirst.height hw h)
    · rw [if_neg hc] at h
      obtain ⟨c₂, p₂, hw, h⟩ := bind_eq_ok.mp h
      exact hfirst.append (passed_down .update hb rfl hfirst.height hw h)
  | delete =>
    obtain ⟨c₁, p₁, hbelow, h⟩ := bind_eq_ok.mp h
    exact passed_up hb hh hbelow h

lemma mapM_writeChild_passed (hb : u.PassesBelow levels below) {cs cs' : List Entity}
    (hh : ∀ c ∈ cs, c.height ≤ levels) {s : Schema} {v : Value}
    (h : cs.mapM (u.writeChild tx below op.phase r s v) p = (.ok cs', p')) :
    (∀ c ∈ cs', c.height ≤ levels) ∧ List.Forall₂ (fun c' c => c'.shape = c.shape) cs' cs ∧
      ∃ ws, Made p p' ws ∧ ws.map Write.type = cs.flatMap (u.itinerary op.ascends r.child) := by
  induction cs generalizing p cs' with
  | nil =>
    cases h
    exact ⟨by simp, .nil, [], .nil _, rfl⟩
  | cons c cs ih =>
    rw [List.mapM_cons] at h
    obtain ⟨c₁, p₁, hc, h⟩ := bind_eq_ok.mp h
    obtain ⟨cs₁, p₂, hcs, h⟩ := bind_eq_ok.mp h
    cases h
    have hpassed := writeChild_passed hb (hh c (by simp)) hc
    obtain ⟨ws, hmade, hws⟩ := hpassed.made
    obtain ⟨hheight, hshape, ws', hmade', hws'⟩ := ih (fun x hx => hh x (by simp [hx])) hcs
    refine ⟨List.forall_mem_cons.mpr ⟨hpassed.height, hheight⟩, .cons hpassed.shape hshape,
      ws ++ ws', hmade.append hmade', ?_⟩
    rw [List.map_append, hws, hws', List.flatMap_cons]

/-- The children under one relation. -/
lemma writeChildren_passed (hb : u.PassesBelow levels below) (hh : e.height ≤ levels + 1)
    (h : u.writeChildren tx below op.phase e r p = (.ok e', p')) :
    Passed (levels + 1) e e'
      ((e.collection r.navigation).flatMap (u.itinerary op.ascends r.child)) p p' := by
  have hlevels : ∀ c ∈ e.collection r.navigation, c.height ≤ levels := by
    intro c hc
    have := Entity.height_lt_of_mem_collection hc
    omega
  unfold writeChildren at h
  split at h
  · rename_i hempty
    cases h
    rw [List.isEmpty_iff.mp hempty]
    exact .of_children hh rfl p
  · rename_i hsome
    obtain ⟨v, p₁, hv, h⟩ := bind_eq_ok.mp h
    obtain ⟨-, rfl⟩ := Committing.ofExcept_eq_ok hv
    obtain ⟨s, p₂, hs, h⟩ := bind_eq_ok.mp h
    obtain ⟨-, rfl⟩ := Committing.ofExcept_eq_ok hs
    obtain ⟨cs, p₃, hcs, h⟩ := bind_eq_ok.mp h
    cases h
    obtain ⟨hheight, hshape, hmade⟩ := mapM_writeChild_passed hb hlevels hcs
    have hname : r.navigation ∈ e.children.map Prod.fst :=
      Entity.mem_names_of_collection_ne_nil (mt List.isEmpty_iff.mpr hsome)
    exact ⟨Entity.height_withCollection_le hh hheight, Entity.shape_withCollection hname hshape,
      hmade⟩

/-- The children under relations one after another. A relation whose navigation was mapped before
finds what the earlier one has left there, which is of the same shape. -/
lemma foldlM_writeChildren_passed (hb : u.PassesBelow levels below) (hh : e.height ≤ levels + 1)
    (h : rs.foldlM (u.writeChildren tx below op.phase) e p = (.ok e', p')) :
    Passed (levels + 1) e e' (u.itineraryAlong op.ascends rs e) p p' := by
  induction rs generalizing e p with
  | nil =>
    cases h
    exact .of_children hh rfl _
  | cons r rs ih =>
    rw [List.foldlM_cons] at h
    obtain ⟨e₁, p₁, hr, h⟩ := bind_eq_ok.mp h
    have hfirst := writeChildren_passed hb hh hr
    have hrest := ih hfirst.height h
    rw [itineraryAlong_congr _ _ hfirst.shape] at hrest
    exact hfirst.append hrest

lemma passesBelow_cascadeWithin (levels : Nat) :
    u.PassesBelow levels (u.cascadeWithin tx levels) := by
  induction levels with
  | zero =>
    intro op T e e' p p' hh h
    cases h
    have hnone : u.itineraryAlong op.ascends (u.relationsOf T) e = [] := by
      refine List.flatMap_eq_nil_iff.mpr fun r _ => ?_
      refine List.flatMap_eq_nil_iff.mpr fun c hc => ?_
      have := Entity.height_lt_of_mem_collection hc
      omega
    rw [hnone]
    exact .of_children hh rfl _
  | succ levels ih => exact fun op T e e' p p' hh h => foldlM_writeChildren_passed ih hh h

lemma writeTree_passed (h : u.writeTree tx op.phase op T e p = (.ok e', p')) :
    Passed e.height e e' (u.itinerary op.ascends T e) p p' := by
  have hb : u.PassesBelow e.height (u.cascadeWithin tx e.height) := passesBelow_cascadeWithin _
  have hdown : ∀ op : Operation, op.ascends = false → ∀ e₁ p₁,
      u.write tx op.phase op T e p = (.ok e₁, p₁) → u.cascade tx op.phase T e₁ p₁ = (.ok e', p') →
      Passed e.height e e' (u.itinerary op.ascends T e) p p' := by
    intro op hop e₁ p₁ hw hc
    obtain ⟨s, -, hleaves, -⟩ := write_ok hw
    rw [cascade, Entity.height_congr hleaves.children] at hc
    rw [hop]
    exact passed_down op hb hop (Nat.le_refl _) hw hc
  cases op with
  | delete =>
    obtain ⟨e₁, p₁, hc, hw⟩ := bind_eq_ok.mp h
    exact passed_up hb (Nat.le_refl _) hc hw
  | insert =>
    obtain ⟨e₁, p₁, hw, hc⟩ := bind_eq_ok.mp h
    exact hdown .insert rfl e₁ p₁ hw hc
  | update =>
    obtain ⟨e₁, p₁, hw, hc⟩ := bind_eq_ok.mp h
    exact hdown .update rfl e₁ p₁ hw hc

/-! ### All trees -/

end UnitOfWork

/-- The buffered entities kept their kinds of write and their shapes. -/
structure Batch.Keeps (b b' : Batch) : Prop where
  type : b'.type = b.type
  pending : List.Forall₂ (fun q' q => q'.op = q.op ∧ q'.entity.shape = q.entity.shape)
    b'.pending b.pending

namespace UnitOfWork

/-- The itinerary of the entities of one kind of write in a buffer. -/
def itineraryOf (u : UnitOfWork) (op : Operation) (T : EntityType) (qs : List Pending) :
    List String :=
  qs.flatMap fun q => if q.op = op then u.itinerary op.ascends T q.entity else []

variable {u : UnitOfWork} {tx : Transaction} {op : Operation} {T : EntityType} {p p' : Progress}

lemma mapM_pending_passed {qs qs' : List Pending}
    (h : qs.mapM (fun q : Pending => if q.op = op then do
        return { q with entity := ← u.writeTree tx op.phase op T q.entity }
      else return q : Pending → Committing Pending) p = (.ok qs', p')) :
    List.Forall₂ (fun q' q => q'.op = q.op ∧ q'.entity.shape = q.entity.shape) qs' qs ∧
      ∃ ws, Made p p' ws ∧ ws.map Write.type = u.itineraryOf op T qs := by
  induction qs generalizing p qs' with
  | nil =>
    cases h
    exact ⟨.nil, [], .nil _, rfl⟩
  | cons q qs ih =>
    rw [List.mapM_cons] at h
    obtain ⟨q₁, p₁, hq, h⟩ := bind_eq_ok.mp h
    obtain ⟨qs₁, p₂, hqs, h⟩ := bind_eq_ok.mp h
    cases h
    obtain ⟨hkept, ws, hmade, hws⟩ := ih hqs
    by_cases hop : q.op = op
    · rw [if_pos hop] at hq
      obtain ⟨e₁, p₃, he, hq⟩ := bind_eq_ok.mp hq
      cases hq
      have hpassed := writeTree_passed he
      obtain ⟨ws₁, hmade₁, hws₁⟩ := hpassed.made
      refine ⟨.cons ⟨rfl, hpassed.shape⟩ hkept, ws₁ ++ ws, hmade₁.append hmade, ?_⟩
      rw [List.map_append, hws₁, hws, itineraryOf, itineraryOf, List.flatMap_cons, if_pos hop]
    · rw [if_neg hop] at hq
      cases hq
      refine ⟨.cons ⟨rfl, rfl⟩ hkept, ws, hmade, ?_⟩
      rw [hws, itineraryOf, itineraryOf, List.flatMap_cons, if_neg hop, List.nil_append]

lemma applyBatch_passed {b b' : Batch} (h : u.applyBatch tx (op.phase, op) b p = (.ok b', p')) :
    b.Keeps b' ∧ ∃ ws, Made p p' ws ∧ ws.map Write.type = u.itineraryOf op b.type b.pending := by
  obtain ⟨qs, p₁, hqs, h⟩ := bind_eq_ok.mp h
  cases h
  obtain ⟨hkept, hmade⟩ := mapM_pending_passed hqs
  exact ⟨⟨rfl, hkept⟩, hmade⟩

/-- One phase goes through all batches. -/
lemma mapM_applyBatch_passed {bs bs' : List Batch}
    (h : bs.mapM (u.applyBatch tx (op.phase, op)) p = (.ok bs', p')) :
    List.Forall₂ (fun b' b => Batch.Keeps b b') bs' bs ∧ ∃ ws, Made p p' ws ∧
      ws.map Write.type = bs.flatMap fun b => u.itineraryOf op b.type b.pending := by
  induction bs generalizing p bs' with
  | nil =>
    cases h
    exact ⟨.nil, [], .nil _, rfl⟩
  | cons b bs ih =>
    rw [List.mapM_cons] at h
    obtain ⟨b₁, p₁, hb, h⟩ := bind_eq_ok.mp h
    obtain ⟨bs₁, p₂, hbs, h⟩ := bind_eq_ok.mp h
    cases h
    obtain ⟨hkept, ws, hmade, hws⟩ := applyBatch_passed hb
    obtain ⟨hkept', ws', hmade', hws'⟩ := ih hbs
    refine ⟨.cons hkept hkept', ws ++ ws', hmade.append hmade', ?_⟩
    rw [List.map_append, hws, hws', List.flatMap_cons]

/-- Batches that kept the shapes have the itineraries they had. -/
lemma itineraryOf_congr {bs bs' : List Batch}
    (h : List.Forall₂ (fun b' b => Batch.Keeps b b') bs' bs) (op : Operation) :
    (bs'.flatMap fun b => u.itineraryOf op b.type b.pending) =
      bs.flatMap fun b => u.itineraryOf op b.type b.pending := by
  refine flatMap_congr_of_forall₂ h fun b' b _ hb => ?_
  rw [hb.type]
  refine flatMap_congr_of_forall₂ hb.pending fun q' q _ hq => ?_
  rw [hq.1, itinerary_congr _ hq.2]

/-- The itinerary of a commit: of all buffered entities, in the order of the plan. -/
lemma itinerary_plan (u : UnitOfWork) :
    (u.plan.flatMap fun x => u.itinerary x.1.ascends x.2.1 x.2.2) =
      Operation.all.flatMap fun op => u.batches.flatMap fun b =>
        u.itineraryOf op b.type b.pending := by
  rw [← plan_batches, Batch.plan, List.flatMap_assoc]
  refine List.flatMap_congr fun op _ => ?_
  rw [List.flatMap_map, List.flatMap_assoc]
  refine List.flatMap_congr fun b _ => ?_
  rw [Batch.roots_eq, List.flatMap_assoc, itineraryOf]
  refine List.flatMap_congr fun q _ => ?_
  rw [Pending.roots]
  by_cases hop : q.op = op <;> simp [hop]

lemma applyAll_passed {bs : List Batch} (h : u.applyAll tx u.batches p = (.ok bs, p')) :
    ∃ ws, Made p p' ws ∧
      ws.map Write.type = u.plan.flatMap fun x => u.itinerary x.1.ascends x.2.1 x.2.2 := by
  have hphases : Phase.schedule =
      [(Operation.insert.phase, .insert), (Operation.update.phase, .update),
        (Operation.delete.phase, .delete)] := rfl
  rw [applyAll, hphases] at h
  obtain ⟨bs₁, p₁, h₁, h⟩ := bind_eq_ok.mp h
  obtain ⟨bs₂, p₂, h₂, h⟩ := bind_eq_ok.mp h
  obtain ⟨bs₃, p₃, h₃, h⟩ := bind_eq_ok.mp h
  cases h
  obtain ⟨hkept₁, ws₁, hmade₁, hws₁⟩ := mapM_applyBatch_passed h₁
  obtain ⟨hkept₂, ws₂, hmade₂, hws₂⟩ := mapM_applyBatch_passed h₂
  obtain ⟨-, ws₃, hmade₃, hws₃⟩ := mapM_applyBatch_passed h₃
  -- Each phase meets the shapes that were buffered.
  rw [itineraryOf_congr hkept₁] at hws₂
  rw [itineraryOf_congr hkept₂, itineraryOf_congr hkept₁] at hws₃
  refine ⟨ws₁ ++ (ws₂ ++ ws₃), hmade₁.append (hmade₂.append hmade₃), ?_⟩
  rw [itinerary_plan, List.map_append, List.map_append, hws₁, hws₂, hws₃]
  simp [Operation.all]

/-- **The itinerary of a commit.** However often navigations are mapped, a commit that goes through
has made one write for each stop of the itineraries of the buffered entities, in their order, and
counts these. -/
theorem commit_itinerary {w w' : World} {c : Committed} (h : u.commit.1 w = (.ok c, w')) :
    ∃ ws, w'.writes = w.writes ++ ws ∧ c.applied = ws.length ∧
      ws.map Write.type = u.plan.flatMap fun x => u.itinerary x.1.ascends x.2.1 x.2.2 := by
  obtain ⟨tx, w₁, bs, p, closed, hopen, hall, hclosed, rfl⟩ := commit_eq_ok h
  obtain ⟨ws, hmade, hws⟩ := applyAll_passed hall
  refine ⟨ws, ?_, by simpa using hmade.applied, hws⟩
  rw [(quiet_tryCommit tx).ok hclosed, hmade.writes, (quiet_openFor u u.types).ok hopen]

end UnitOfWork

end EntityStore
