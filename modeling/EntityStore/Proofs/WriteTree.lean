import EntityStore.Proofs.Trace
import Mathlib.Algebra.Ring.Nat

/-!
The writes for an entity and what hangs below it along mapped navigations form a tree of the same
shape, and so does what they leave. Every entity of the shape is written once.
-/

namespace EntityStore

/-! ### Trees of entities -/

namespace Entity

lemma height_lt_of_mem_collection {e c : Entity} {navigation : String}
    (h : c ∈ e.collection navigation) : c.height < e.height := by
  have hcollection : ∀ es : List Entity, c ∈ es → c.height < heightOfCollection es := by
    intro es
    induction es with
    | nil => simp
    | cons e es ih =>
      intro hc
      rw [heightOfCollection]
      rcases List.mem_cons.mp hc with rfl | hc
      · omega
      · have := ih hc; omega
  have hall : ∀ l : List (String × List Entity), c ∈ (l.lookup navigation).getD [] →
      c.height < heightOfAll l := by
    intro l
    induction l with
    | nil => simp
    | cons p l ih =>
      obtain ⟨k, es⟩ := p
      intro hc
      rw [heightOfAll]
      rw [List.lookup_cons] at hc
      split at hc
      · have := hcollection es hc; omega
      · have := ih hc; omega
  obtain ⟨scalars, children⟩ := e
  exact hall children h

lemma height_congr {e e' : Entity} (h : e'.children = e.children) : e'.height = e.height := by
  obtain ⟨_, _⟩ := e
  obtain ⟨_, _⟩ := e'
  cases h
  rfl

lemma collection_congr {e e' : Entity} (h : e'.children = e.children) :
    e'.collection = e.collection := by
  funext navigation
  rw [collection, collection, h]

end Entity

/-! ### Trees of writes -/

/-- A write that was made, what it left of the scalars, and those for what hangs below. -/
inductive Written where
  | node (op : Operation) (type : String) (sent left : Record) (below : List Written)

namespace Written

mutual

/-- The writes of a tree in order: a delete comes after those below it. -/
def order : Written → List Write
  | node .delete type sent _ below => orderAll below ++ [⟨.delete, type, sent⟩]
  | node op type sent _ below => ⟨op, type, sent⟩ :: orderAll below

/-- The writes of trees, one after another. -/
def orderAll : List Written → List Write
  | [] => []
  | t :: ts => order t ++ orderAll ts

end

lemma orderAll_append (ts us : List Written) :
    orderAll (ts ++ us) = orderAll ts ++ orderAll us := by
  induction ts with
  | nil => rfl
  | cons t ts ih => simp only [List.cons_append, orderAll, ih, List.append_assoc]

end Written

lemma Adapter.Leaves.children {a : Adapter} {op : Operation} {e e' : Entity}
    (h : a.Leaves op e e') : e'.children = e.children := by
  unfold Leaves at h
  split at h
  · obtain ⟨key, h⟩ := h
    obtain ⟨_, -, rfl⟩ := Declarations.assign_eq_ok h
    rfl
  · rw [h]

lemma Adapter.Leaves.eq_of_ne {a : Adapter} {op : Operation} {e e' : Entity} (h : a.Leaves op e e')
    (hop : op ≠ .insert) : e' = e := by
  unfold Leaves at h
  rwa [if_neg fun hc => hop hc.1] at h

lemma Adapter.leaves_self {a : Adapter} {op : Operation} (h : op ≠ .insert) (e : Entity) :
    a.Leaves op e e := by
  unfold Leaves
  rw [if_neg fun hc => h hc.1]

namespace UnitOfWork

variable (u : UnitOfWork)

/-- Every navigation is mapped at most once. -/
def MapsOnce : Prop := (u.relations.map fun r => (r.parent.name, r.navigation)).Nodup

/-- What hangs below an entity along mapped navigations: relation by relation in the order of their
mapping, child by child in the order of the collection. -/
def below (T : EntityType) (e : Entity) : List (Relation × Entity) :=
  (u.relationsOf T).flatMap fun r => (e.collection r.navigation).map (r, ·)

/-- A child as it is written below a parent of which a write left the given scalars. -/
def Receives (op : Operation) (left : Record) (r : Relation) (c c' : Entity) : Prop :=
  if op = .delete then c' = c
  else ∃ v, r.parent.get left r.join.parentField = some v ∧
    r.child.assign c r.join.childField v = .ok c'

/-- The write that a child gets: one of an update that has no key yet is created. -/
def childOperation (op : Operation) (r : Relation) (c : Entity) : Operation :=
  if op = .update ∧ (u.store? r.child.name).any (·.adapter.schema.isTransient r.child c) then
    .insert
  else op

mutual

/-- The tree has the writes for an entity and all that hangs below it. -/
inductive Cascades : Operation → EntityType → Entity → Written → Prop
  | node {op : Operation} {T : EntityType} {e e' : Entity} {ts : List Written} {s : DataStore}
    (store : u.store? T.name = some s) (leaves : s.adapter.Leaves op e e')
    (below : CascadesAll op e'.scalars (u.below T e) ts) :
    Cascades op T e (.node op T.name e.scalars e'.scalars ts)

/-- The trees have the writes for what hangs below a parent, one for each child. -/
inductive CascadesAll : Operation → Record → List (Relation × Entity) → List Written → Prop
  | nil {op : Operation} {left : Record} : CascadesAll op left [] []
  | cons {op : Operation} {left : Record} {r : Relation} {c c' : Entity} {t : Written}
    {rcs : List (Relation × Entity)} {ts : List Written}
    (receives : Receives op left r c c')
    (head : Cascades (u.childOperation op r c') r.child c' t)
    (tail : CascadesAll op left rcs ts) : CascadesAll op left ((r, c) :: rcs) (t :: ts)

end

mutual

/-- The tree has the writes for an entity and all that hangs below it, and this is what they left of
both. -/
inductive Cascaded : Operation → EntityType → Entity → Entity → Written → Prop
  | node {op : Operation} {T : EntityType} {e e₁ e' : Entity} {ts : List Written} {s : DataStore}
    (store : u.store? T.name = some s) (leaves : s.adapter.Leaves op e e₁)
    (scalars : e'.scalars = e₁.scalars)
    (below : CascadedAll op e₁.scalars (u.below T e) (u.below T e') ts) :
    Cascaded op T e e' (.node op T.name e.scalars e₁.scalars ts)

/-- The trees have the writes for what hangs below a parent, one for each child, and this is what
they left. -/
inductive CascadedAll : Operation → Record → List (Relation × Entity) → List (Relation × Entity) →
    List Written → Prop
  | nil {op : Operation} {left : Record} : CascadedAll op left [] [] []
  | cons {op : Operation} {left : Record} {r : Relation} {c c₁ c' : Entity} {t : Written}
    {rcs rcs' : List (Relation × Entity)} {ts : List Written}
    (receives : Receives op left r c c₁)
    (head : Cascaded (u.childOperation op r c₁) r.child c₁ c' t)
    (tail : CascadedAll op left rcs rcs' ts) :
    CascadedAll op left ((r, c) :: rcs) ((r, c') :: rcs') (t :: ts)

end

/-- The number of entities that are reached from one along mapped navigations, itself included. -/
def reachable (T : EntityType) (e : Entity) : Nat :=
  1 + ((u.below T e).attach.map fun ⟨(r, c), _⟩ => reachable r.child c).sum
termination_by e.height
decreasing_by
  rename_i h
  obtain ⟨r, -, h⟩ := List.mem_flatMap.mp h
  obtain ⟨c, hc, h⟩ := List.mem_map.mp h
  cases h
  exact Entity.height_lt_of_mem_collection hc

variable {u}

lemma reachable_eq (T : EntityType) (e : Entity) :
    u.reachable T e = 1 + ((u.below T e).map fun rc => u.reachable rc.1.child rc.2).sum := by
  rw [reachable,
    List.attach_map_val (f := fun rc : Relation × Entity => u.reachable rc.1.child rc.2)]

lemma mem_below {T : EntityType} {e c : Entity} {r : Relation} :
    (r, c) ∈ u.below T e ↔ r ∈ u.relationsOf T ∧ c ∈ e.collection r.navigation := by
  simp only [below, List.mem_flatMap, List.mem_map, Prod.mk.injEq]
  constructor
  · rintro ⟨q, hq, x, hx, rfl, rfl⟩
    exact ⟨hq, hx⟩
  · rintro ⟨hr, hc⟩
    exact ⟨r, hr, c, hc, rfl, rfl⟩

lemma below_congr {T : EntityType} {e e' : Entity} (h : e'.children = e.children) :
    u.below T e' = u.below T e := by
  rw [below, below, Entity.collection_congr h]

lemma reachable_congr {T : EntityType} {e e' : Entity} (h : e'.children = e.children) :
    u.reachable T e' = u.reachable T e := by
  rw [reachable_eq, reachable_eq, below_congr h]

lemma MapsOnce.nodup_relationsOf (h : u.MapsOnce) (T : EntityType) :
    ((u.relationsOf T).map (·.navigation)).Nodup := by
  have hsub : ((u.relationsOf T).map fun r => (r.parent.name, r.navigation)).Nodup :=
    h.sublist (List.filter_sublist.map _)
  have hmap : ((u.relationsOf T).map fun r => (r.parent.name, r.navigation)) =
      ((u.relationsOf T).map (·.navigation)).map (T.name, ·) := by
    rw [List.map_map]
    refine List.map_congr_left fun r hr => ?_
    have hname : r.parent.name = T.name := by simpa using List.of_mem_filter hr
    rw [hname, Function.comp_apply]
  rw [hmap] at hsub
  exact hsub.of_map

lemma Receives.children {op : Operation} {left : Record} {r : Relation} {c c' : Entity}
    (h : Receives op left r c c') : c'.children = c.children := by
  unfold Receives at h
  split at h
  · rw [h]
  · obtain ⟨v, -, h⟩ := h
    obtain ⟨_, -, rfl⟩ := Declarations.assign_eq_ok h
    rfl

lemma CascadedAll.append {op : Operation} {left : Record}
    {rcs rcs' qcs qcs' : List (Relation × Entity)} {ts us : List Written}
    (h : u.CascadedAll op left rcs rcs' ts) (h' : u.CascadedAll op left qcs qcs' us) :
    u.CascadedAll op left (rcs ++ qcs) (rcs' ++ qcs') (ts ++ us) := by
  induction rcs generalizing rcs' ts with
  | nil =>
    cases h
    exact h'
  | cons rc rcs ih =>
    cases h with
    | cons receives head tail => exact .cons receives head (ih tail)

mutual

/-- The writes by themselves. -/
lemma Cascaded.cascades {op : Operation} {T : EntityType} {e e' : Entity} {t : Written}
    (h : u.Cascaded op T e e' t) : u.Cascades op T e t := by
  cases h with
  | node store leaves scalars below => exact .node store leaves below.cascadesAll

lemma CascadedAll.cascadesAll {op : Operation} {left : Record}
    {rcs rcs' : List (Relation × Entity)} {ts : List Written}
    (h : u.CascadedAll op left rcs rcs' ts) : u.CascadesAll op left rcs ts := by
  cases h with
  | nil => exact .nil
  | cons receives head tail => exact .cons receives head.cascades tail.cascadesAll

end

mutual

/-- A tree has as many writes as there are entities. -/
lemma Cascades.length_order {op : Operation} {T : EntityType} {e : Entity} {t : Written}
    (h : u.Cascades op T e t) : t.order.length = u.reachable T e := by
  cases h with
  | @node _ _ _ e' ts s store leaves below =>
    have hlen := below.length_orderAll
    rw [reachable_eq, ← hlen]
    cases op <;> simp [Written.order] <;> omega

lemma CascadesAll.length_orderAll {op : Operation} {left : Record}
    {rcs : List (Relation × Entity)} {ts : List Written} (h : u.CascadesAll op left rcs ts) :
    (Written.orderAll ts).length = (rcs.map fun rc => u.reachable rc.1.child rc.2).sum := by
  cases h with
  | nil => rfl
  | cons receives head tail =>
    have hhead := head.length_order
    have htail := tail.length_orderAll
    rw [reachable_congr receives.children] at hhead
    simp [Written.orderAll, hhead, htail]

end

end UnitOfWork

end EntityStore
