import EntityStore.Proofs.Hydration
import EntityStore.Proofs.Sequence

/-!
Filling navigations once more. What a search puts into a collection depends on the scalars of the
entity, which it leaves alone, and not on what is in the collection; so over tables in memory to go
through the same relations a second time changes nothing.
-/

namespace EntityStore

open Fallible

/-! ### Collections -/

namespace Entity

variable {cs : Relation → List Entity}

/-- What one navigation holds after some relations were filled, the last of its own deciding. -/
def refilled (cs : Relation → List Entity) (rs : List Relation) (navigation : String)
    (es : List Entity) : List Entity :=
  rs.foldl (fun es r => if navigation = r.navigation then cs r else es) es

/-- Fill the navigations of relations one after another. -/
def refill (e : Entity) (cs : Relation → List Entity) (rs : List Relation) : Entity :=
  rs.foldl (fun e r => e.withCollection r.navigation (cs r)) e

lemma scalars_refill (cs : Relation → List Entity) (rs : List Relation) (e : Entity) :
    (e.refill cs rs).scalars = e.scalars := by
  induction rs generalizing e with
  | nil => rfl
  | cons r rs ih => exact ih _

lemma children_refill (rs : List Relation) (e : Entity) :
    (e.refill cs rs).children = e.children.map fun p => (p.1, refilled cs rs p.1 p.2) := by
  induction rs generalizing e with
  | nil => exact (List.map_id' e.children).symm
  | cons r rs ih =>
    refine (ih _).trans ?_
    change (List.map _ (e.children.map _)) = _
    rw [List.map_map]
    refine List.map_congr_left fun p _ => ?_
    by_cases hp : p.1 = r.navigation
    · simp [refilled, hp]
    · simp [refilled, hp]

/-- Either a relation fills the navigation, whatever was in it, or none does. -/
lemma refilled_cases (cs : Relation → List Entity) (rs : List Relation) (navigation : String) :
    (∀ es es', refilled cs rs navigation es = refilled cs rs navigation es') ∨
      ∀ es, refilled cs rs navigation es = es := by
  induction rs with
  | nil => exact .inr fun _ => rfl
  | cons r rs ih =>
    rcases ih with h | h
    · exact .inl fun es es' => h _ _
    · by_cases hr : navigation = r.navigation
      · left
        intro es es'
        simp [refilled, hr]
      · right
        intro es
        have hcons : refilled cs (r :: rs) navigation es = refilled cs rs navigation es := by
          simp [refilled, hr]
        rw [hcons, h]

lemma refill_twice (rs : List Relation) (e : Entity) :
    (e.refill cs rs).refill cs rs = e.refill cs rs := by
  have hext : ∀ a b : Entity, a.scalars = b.scalars → a.children = b.children → a = b := by
    rintro ⟨_, _⟩ ⟨_, _⟩ rfl rfl
    rfl
  refine hext _ _ (scalars_refill cs rs _) ?_
  rw [children_refill, children_refill, List.map_map]
  refine List.map_congr_left fun p _ => ?_
  rcases refilled_cases cs rs p.1 with h | h
  · exact Prod.ext rfl (h _ _)
  · exact Prod.ext rfl (h _)

end Entity

/-! ### Computations that only look -/

namespace Fallible

variable {σ ε ε' α β : Type}

/-- The state is as it was, whatever comes of it. -/
def Still (x : Fallible σ ε α) : Prop := ∀ s, (x s).2 = s

lemma Still.pure (a : α) : Still (Pure.pure a : Fallible σ ε α) := fun _ => rfl

lemma Still.ofExcept (x : Except ε α) : Still (ofExcept x : Fallible σ ε α) := fun _ => rfl

lemma Still.adapt {x : Fallible σ ε α} (h : Still x) (f : ε → ε') :
    Still (x.adapt f : Fallible σ ε' α) := h

lemma Still.bind {x : Fallible σ ε α} {f : α → Fallible σ ε β} (h : Still x)
    (hf : ∀ a, Still (f a)) : Still (x >>= f) := by
  intro s
  have hs := h s
  rw [bind_apply]
  rcases hx : x s with ⟨e | a, t⟩
  · rw [hx] at hs
    exact hs
  · rw [hx] at hs
    exact (hf a t).trans hs

lemma Still.mapM {f : α → Fallible σ ε β} (h : ∀ a, Still (f a)) (as : List α) :
    Still (as.mapM f) := by
  induction as with
  | nil => exact .pure []
  | cons a as ih =>
    rw [List.mapM_cons]
    exact (h a).bind fun _ => ih.bind fun _ => .pure _

lemma Still.foldlM {f : β → α → Fallible σ ε β} (h : ∀ b a, Still (f b a)) (as : List α) (b : β) :
    Still (as.foldlM f b) := by
  induction as generalizing b with
  | nil => exact .pure b
  | cons a as ih =>
    rw [List.foldlM_cons]
    exact (h b a).bind ih

/-- Where a loop over a list of computations that only look goes through, each of them does. -/
lemma Still.of_mapM {f : α → Fallible σ ε β} (h : ∀ a, Still (f a)) {as : List α} {bs : List β}
    {s s' : σ} (hs : as.mapM f s = (.ok bs, s')) : ∀ a ∈ as, ∃ b, f a s = (.ok b, s) := by
  induction as generalizing bs s' with
  | nil => simp
  | cons a as ih =>
    rw [List.mapM_cons] at hs
    obtain ⟨b, t, ha, hs⟩ := bind_eq_ok.mp hs
    obtain ⟨bs', t', has, -⟩ := bind_eq_ok.mp hs
    have ht : t = s := by
      have := h a s
      rwa [ha] at this
    subst ht
    exact List.forall_mem_cons.mpr ⟨⟨b, ha⟩, ih has⟩

end Fallible

/-! ### Filling twice -/

section Twice

variable {σ ε : Type} {found : Relation → Entity → Fallible σ ε (List Entity)} {s s' : σ}
  {rs : List Relation} {es es' : List Entity}

/-- Fill the navigation of one relation in all entities, with what is found for each. -/
def fillWith (found : Relation → Entity → Fallible σ ε (List Entity)) (es : List Entity)
    (r : Relation) : Fallible σ ε (List Entity) :=
  es.mapM fun e => do return e.withCollection r.navigation (← found r e)

/-- What is found in a state, or nothing. -/
def foundIn (found : Relation → Entity → Fallible σ ε (List Entity)) (s : σ) (e : Entity)
    (r : Relation) : List Entity :=
  match (found r e s).1 with
  | .ok cs => cs
  | .error _ => []

/-- Where everything is found one relation is filled with it. -/
lemma fillWith_ok {r : Relation} (h : ∀ e ∈ es, ∃ cs, found r e s = (.ok cs, s)) :
    fillWith found es r s =
      (.ok (es.map fun e => e.withCollection r.navigation (foundIn found s e r)), s) := by
  refine mapM_of_ok fun e he => ?_
  obtain ⟨cs, hcs⟩ := h e he
  rw [bind_of_ok hcs, foundIn, hcs]
  rfl

variable (hfound : ∀ r e e', e'.scalars = e.scalars → found r e' = found r e)

include hfound

lemma foundIn_congr {e e' : Entity} (h : e'.scalars = e.scalars) :
    foundIn found s e' = foundIn found s e := by
  funext r
  unfold foundIn
  rw [hfound r e e' h]

/-- Where everything is found the relations are filled with it. -/
lemma foldlM_fillWith (h : ∀ r ∈ rs, ∀ e ∈ es, ∃ cs, found r e s = (.ok cs, s)) :
    rs.foldlM (fillWith found) es s =
      (.ok (es.map fun e => e.refill (foundIn found s e) rs), s) := by
  induction rs generalizing es with
  | nil => exact congrArg (fun l => (Except.ok l, s)) (List.map_id' es).symm
  | cons r rs ih =>
    rw [List.foldlM_cons, bind_of_ok (fillWith_ok (h r (by simp))), ih, List.map_map]
    · refine congrArg (fun l => (Except.ok l, s)) (List.map_congr_left fun e _ => ?_)
      have hsame : foundIn found s (e.withCollection r.navigation (foundIn found s e r)) =
          foundIn found s e := foundIn_congr hfound rfl
      rw [Function.comp_apply, hsame]
      rfl
    · intro q hq e he
      obtain ⟨e₀, he₀, rfl⟩ := List.mem_map.mp he
      have hsame : found q (e₀.withCollection r.navigation (foundIn found s e₀ r)) = found q e₀ :=
        hfound q e₀ _ rfl
      rw [hsame]
      exact h q (by simp [hq]) e₀ he₀

/-- Where the relations are filled everything was found. -/
lemma found_of_foldlM (hstill : ∀ r e, Still (found r e))
    (h : rs.foldlM (fillWith found) es s = (.ok es', s')) :
    ∀ r ∈ rs, ∀ e ∈ es, ∃ cs, found r e s = (.ok cs, s) := by
  induction rs generalizing es with
  | nil => simp
  | cons r rs ih =>
    rw [List.foldlM_cons] at h
    obtain ⟨es₁, t, hr, h⟩ := bind_eq_ok.mp h
    have hfill : ∀ e, Still (do return e.withCollection r.navigation (← found r e)) :=
      fun e => (hstill r e).bind fun _ => .pure _
    have hhead : ∀ e ∈ es, ∃ cs, found r e s = (.ok cs, s) := by
      intro e he
      obtain ⟨e₁, he₁⟩ := Still.of_mapM hfill hr e he
      obtain ⟨cs, t', hcs, -⟩ := bind_eq_ok.mp he₁
      have ht' := hstill r e s
      rw [hcs] at ht'
      obtain rfl : t' = s := ht'
      exact ⟨cs, hcs⟩
    -- The later relations are filled in entities with other children, for which the same is found.
    have hround := fillWith_ok hhead
    rw [hr] at hround
    obtain ⟨hes, rfl⟩ := Prod.mk.inj hround
    cases hes
    refine List.forall_mem_cons.mpr ⟨hhead, fun q hq e he => ?_⟩
    have htail := ih h q hq _ (List.mem_map_of_mem he)
    have hsame : found q (e.withCollection r.navigation (foundIn found t e r)) = found q e :=
      hfound q e _ rfl
    rwa [hsame] at htail

/-- To fill the relations twice is to fill them once. -/
lemma foldlM_fillWith_twice (hstill : ∀ r e, Still (found r e)) (rs : List Relation)
    (es : List Entity) :
    (rs ++ rs).foldlM (fillWith found) es = rs.foldlM (fillWith found) es := by
  funext s
  rw [List.foldlM_append]
  rcases h : rs.foldlM (fillWith found) es s with ⟨e | es', s'⟩
  · rw [bind_of_error h]
  · have hall := found_of_foldlM hfound hstill h
    have honce := foldlM_fillWith hfound hall
    have hagain : ∀ r ∈ rs, ∀ e ∈ es.map fun e => e.refill (foundIn found s e) rs,
        ∃ cs, found r e s = (.ok cs, s) := by
      intro r hr e he
      obtain ⟨e₀, he₀, rfl⟩ := List.mem_map.mp he
      rw [hfound r e₀ _ (Entity.scalars_refill _ rs e₀)]
      exact hall r hr e₀ he₀
    rw [bind_of_ok honce, foldlM_fillWith hfound hagain, List.map_map, ← h, honce]
    refine congrArg (fun l => (Except.ok l, s)) (List.map_congr_left fun e _ => ?_)
    rw [Function.comp_apply, foundIn_congr hfound (Entity.scalars_refill _ rs e),
      Entity.refill_twice]

end Twice

/-! ### Searches -/

namespace UnitOfWork

variable {u v : UnitOfWork}

/-- What belongs to an entity under a relation, with what hangs below it to a depth. -/
def childrenWithin (u : UnitOfWork) (depth : Nat) (r : Relation) (e : Entity) :
    Search (List Entity) :=
  u.childrenOf r e >>= u.hydrate depth r.child

lemma childrenOf_congr (u : UnitOfWork) (r : Relation) {e e' : Entity}
    (h : e'.scalars = e.scalars) :
    u.childrenOf r e' = u.childrenOf r e := by
  have hread : r.parent.read e' r.join.parentField = r.parent.read e r.join.parentField := by
    rw [EntityType.read, EntityType.read, EntityType.read?, EntityType.read?, h]
  rw [childrenOf, childrenOf, hread]

lemma childrenWithin_congr (u : UnitOfWork) (depth : Nat) (r : Relation) (e e' : Entity)
    (h : e'.scalars = e.scalars) : u.childrenWithin depth r e' = u.childrenWithin depth r e := by
  rw [childrenWithin, childrenWithin, u.childrenOf_congr r h]

/-- A search goes through the relations and fills each in all entities. -/
lemma hydrate_eq_fillWith (u : UnitOfWork) (depth : Nat) (T : EntityType) (es : List Entity) :
    u.hydrate (depth + 1) T es =
      (u.relationsOf T).foldlM (fillWith (u.childrenWithin depth)) es := by
  have hfill : (fun es r => es.mapM (u.fillIn depth r)) = fillWith (u.childrenWithin depth) := by
    funext es r
    refine congrArg (es.mapM ·) (funext fun e => ?_)
    rw [fillIn, childrenWithin, bind_assoc]
  rw [hydrate_succ, hfill]

lemma still_childrenOf (hm : u.InMemory) (r : Relation) (e : Entity) :
    Still (u.childrenOf r e) := by
  refine Still.adapt (.bind (.ofExcept _) fun v w => ?_) _
  rcases hs : u.store r.child with err | s
  · rfl
  · obtain ⟨t, ht⟩ := hm s (store?_eq_some (store_eq_ok hs)).1
    exact congrArg Prod.snd (DataStore.find_memory ht (r.join.predicate v) w)

/-- A search in memory leaves the world as it is. -/
lemma still_hydrate (hm : u.InMemory) (depth : Nat) (T : EntityType) (es : List Entity) :
    Still (u.hydrate depth T es) := by
  induction depth generalizing T es with
  | zero =>
    rw [hydrate]
    split
    · exact .pure _
    · exact .ofExcept (.error Stop.tooDeep)
  | succ depth ih =>
    rw [hydrate_eq_fillWith]
    refine .foldlM (fun es r => .mapM (fun e => ?_) es) _ es
    exact ((still_childrenOf hm r e).bind fun cs => ih r.child cs).bind fun _ => .pure _

/-- In memory a search through relations that are listed twice is one through each of them once. -/
lemma hydrate_twice (hstores : v.stores = u.stores)
    (hrelations : ∀ T, v.relationsOf T = u.relationsOf T ∨
      u.InMemory ∧ v.relationsOf T = u.relationsOf T ++ u.relationsOf T) (depth : Nat) :
    v.hydrate depth = u.hydrate depth := by
  have hstore : v.store = u.store := by
    funext T
    rw [store, store, store?, store?, hstores]
  have hchildren : v.childrenOf = u.childrenOf := by
    funext r e
    rw [childrenOf, childrenOf, hstore]
  induction depth with
  | zero =>
    funext T es
    rw [hydrate, hydrate]
    rcases hrelations T with h | ⟨-, h⟩
    · rw [h]
    · have hempty : ∀ rs : List Relation, (rs ++ rs).isEmpty = rs.isEmpty := by
        rintro (_ | ⟨r, rs⟩) <;> rfl
      rw [h, hempty]
  | succ depth ih =>
    have hwithin : v.childrenWithin depth = u.childrenWithin depth := by
      funext r e
      rw [childrenWithin, childrenWithin, hchildren, ih]
    funext T es
    rw [hydrate_eq_fillWith, hydrate_eq_fillWith, hwithin]
    rcases hrelations T with h | ⟨hm, h⟩
    · rw [h]
    · rw [h]
      exact foldlM_fillWith_twice (u.childrenWithin_congr depth)
        (fun r e => (still_childrenOf hm r e).bind fun cs => still_hydrate hm depth r.child cs) _ es

end UnitOfWork

end EntityStore
