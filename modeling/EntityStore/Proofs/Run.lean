import EntityStore.Proofs.Triple
import EntityStore.UnitOfWork.Commit

/-!
The rule for a commit as a whole. What every single write keeps, of the state and of the entities,
is kept by the cascade below an entity at any depth, by its tree, by a batch and by all batches.
-/

namespace EntityStore

open Fallible

/-- Announcing a write notes it, unless a guard finds no key, and changes nothing else. -/
lemma Adapter.announce_cases (a : Adapter) (op : Operation) (e : Entity) (w : World) :
    (∃ err, a.announce op e w = (.error err, w)) ∨
      ∃ result guard key, a.announce op e w =
        (result, w.note (.write guard op a.type.name key e)) := by
  unfold announce
  rcases a.guard with _ | g
  · exact .inr ⟨.ok (), none, _, rfl⟩
  · rcases a.schema.keyOf a.type e with err | key
    · exact .inl ⟨err, rfl⟩
    · right
      by_cases hr : g.refuses = some op ∧ g.spares ≤ w.trace.countP (g.saw op)
      · refine ⟨.error (.backendExecution (.plain s!"{a.type.name} store is read-only")), g.name,
          key, ?_⟩
        simp [bind_apply, hr]
      · refine ⟨.ok (), g.name, key, ?_⟩
        simp [bind_apply, hr]

namespace Committing

variable {α : Type} {I : Progress → Prop} {E : Halt → Progress → Prop} {entity : String}
  {phase : Phase}

lemma ofExcept_apply (x : Except Error α) (p : Progress) :
    ofExcept entity phase x p = (x.mapError (⟨entity, phase, ·⟩), p) := by
  rcases x <;> rfl

lemma ofExcept_eq_ok {x : Except Error α} {p p' : Progress} {a : α}
    (h : ofExcept entity phase x p = (.ok a, p')) : x = .ok a ∧ p = p' := by
  rw [ofExcept_apply] at h
  rcases x with e | b
  · cases h
  · cases h; exact ⟨rfl, rfl⟩

lemma ofStep_of_ok {x : Step Error α} {p : Progress} {a : α} {w : World}
    (h : x p.world = (.ok a, w)) : ofStep entity phase x p = (.ok a, { p with world := w }) := by
  unfold ofStep
  rw [h]

lemma ofStep_of_error {x : Step Error α} {p : Progress} {e : Error} {w : World}
    (h : x p.world = (.error e, w)) :
    ofStep entity phase x p = (.error ⟨entity, phase, e⟩, { p with world := w }) := by
  unfold ofStep
  rw [h]

lemma ofStep_eq_ok {x : Step Error α} {p p' : Progress} {a : α}
    (h : ofStep entity phase x p = (.ok a, p')) :
    x p.world = (.ok a, p'.world) ∧ p'.applied = p.applied := by
  unfold ofStep at h
  rcases hx : x p.world with ⟨e | b, w⟩
  · rw [hx] at h; cases h
  · rw [hx] at h; cases h; exact ⟨rfl, rfl⟩

/-- A result goes through as it is, and its refusal stops the commit. -/
lemma triple_ofExcept (hE : ∀ h p, I p → E h p) (x : Except Error α) :
    Triple I (ofExcept entity phase x) (fun a p => I p ∧ x = .ok a) E := by
  intro p hp
  rw [ofExcept_apply]
  rcases x with e | a
  · exact hE _ p hp
  · exact ⟨hp, rfl⟩

/-- A step of the world goes through, or stops the commit, with what is known of the world. -/
lemma triple_ofStep {P : World → Prop} {Q : α → World → Prop} {F : Error → World → Prop}
    {x : Step Error α} (hx : Triple P x Q F) :
    Triple (fun p => P p.world) (ofStep entity phase x) (fun a p => Q a p.world)
      (fun h p => F h.error p.world) := by
  intro p hp
  have h := hx p.world hp
  unfold ofStep
  rcases hr : x p.world with ⟨e | a, w⟩
  · rw [hr] at h; exact h
  · rw [hr] at h; exact h

end Committing

namespace UnitOfWork

variable {u : UnitOfWork} {tx : Transaction} {I : Progress → Prop} {Ok : EntityType → Entity → Prop}
  {E : Halt → Progress → Prop}

/-- The writes of a commit keep an invariant of its progress and a property of the entities. What
stops the commit between two writes leaves the invariant as it is. -/
structure Keeps (u : UnitOfWork) (tx : Transaction) (I : Progress → Prop)
    (Ok : EntityType → Entity → Prop) (E : Halt → Progress → Prop) : Prop where
  halt : ∀ h p, I p → E h p
  write : ∀ phase op T e, Ok T e →
    Triple I (u.write tx phase op T e) (fun e' p => I p ∧ Ok T e') E
  child : ∀ T e, Ok T e → ∀ r ∈ u.relationsOf T, (u.store? r.child.name).isSome →
    ∀ c ∈ e.collection r.navigation, Ok r.child c
  assign : ∀ T e field v e', Ok T e → T.assign e field v = .ok e' → Ok T e'
  collect : ∀ T e, Ok T e → ∀ r ∈ u.relationsOf T, ∀ es, (∀ c ∈ es, Ok r.child c) →
    Ok T (e.withCollection r.navigation es)

/-- Entities of a type are written below their own with what is kept. -/
def KeepsBelow (I : Progress → Prop) (Ok : EntityType → Entity → Prop) (E : Halt → Progress → Prop)
    (below : Phase → EntityType → Entity → Committing Entity) : Prop :=
  ∀ phase T e, Ok T e → Triple I (below phase T e) (fun e' p => I p ∧ Ok T e') E

namespace Keeps

variable {below : Phase → EntityType → Entity → Committing Entity} {phase : Phase}

lemma writeChild (k : u.Keeps tx I Ok E) (hb : KeepsBelow I Ok E below) {r : Relation} {s : Schema}
    {v : Value} {c : Entity} (hc : Ok r.child c) :
    Triple I (u.writeChild tx below phase r s v c) (fun c' p => I p ∧ Ok r.child c') E := by
  cases phase with
  | insert =>
    refine (Committing.triple_ofExcept k.halt _).bind_of fun c₁ h₁ => ?_
    refine (k.write _ _ _ _ (k.assign _ _ _ _ _ hc h₁)).bind_of fun c₂ h₂ => ?_
    exact hb _ _ _ h₂
  | update =>
    refine (Committing.triple_ofExcept k.halt _).bind_of fun c₁ h₁ => ?_
    have hc₁ := k.assign _ _ _ _ _ hc h₁
    split
    · refine (k.write _ _ _ _ hc₁).bind_of fun c₂ h₂ => ?_
      exact hb _ _ _ h₂
    · refine (k.write _ _ _ _ hc₁).bind_of fun c₂ h₂ => ?_
      exact hb _ _ _ h₂
  | delete =>
    refine (hb _ _ _ hc).bind_of fun c₁ h₁ => ?_
    exact k.write _ _ _ _ h₁
  | commit => exact Triple.pure fun p hp => ⟨hp, hc⟩

lemma writeChildren (k : u.Keeps tx I Ok E) (hb : KeepsBelow I Ok E below) {T : EntityType}
    {e : Entity} (he : Ok T e) {r : Relation} (hr : r ∈ u.relationsOf T) :
    Triple I (u.writeChildren tx below phase e r) (fun e' p => I p ∧ Ok T e') E := by
  unfold UnitOfWork.writeChildren
  dsimp only
  split
  · exact Triple.pure fun p hp => ⟨hp, he⟩
  · refine (Committing.triple_ofExcept k.halt _).bind_of fun v _ => ?_
    refine (Committing.triple_ofExcept k.halt _).bind_of fun s hs => ?_
    have hreg : (u.store? r.child.name).isSome := by
      unfold UnitOfWork.store at hs
      split at hs
      · rename_i h; rw [h]; rfl
      · cases hs
    have hmap : Triple I
        ((e.collection r.navigation).mapM (u.writeChild tx below phase r s.adapter.schema v))
        (fun cs p => I p ∧ ∀ c ∈ cs, Ok r.child c) E :=
      Triple.mapM_all fun c hc => k.writeChild hb (k.child T e he r hr hreg c hc)
    refine hmap.bind_of fun cs hcs => ?_
    exact Triple.pure fun p hp => ⟨hp, k.collect T e he r hr cs hcs⟩

lemma cascadeWithin (k : u.Keeps tx I Ok E) (levels : Nat) :
    KeepsBelow I Ok E (u.cascadeWithin tx levels) := by
  induction levels with
  | zero => exact fun phase T e he => Triple.pure fun p hp => ⟨hp, he⟩
  | succ levels ih =>
    intro phase T e he
    exact Triple.foldlM (fun e' r hr he' => k.writeChildren ih he' hr) he

lemma writeTree (k : u.Keeps tx I Ok E) {op : Operation} {T : EntityType} {e : Entity}
    (he : Ok T e) :
    Triple I (u.writeTree tx phase op T e) (fun e' p => I p ∧ Ok T e') E := by
  have hwrite : ∀ e', Ok T e' → Triple I (u.write tx phase op T e') (fun e' p => I p ∧ Ok T e') E :=
    fun e' he' => k.write _ _ _ _ he'
  cases op with
  | delete => exact (k.cascadeWithin _ _ _ _ he).bind_of hwrite
  | insert => exact (hwrite e he).bind_of fun e' he' => k.cascadeWithin _ _ _ _ he'
  | update => exact (hwrite e he).bind_of fun e' he' => k.cascadeWithin _ _ _ _ he'

/-- Every entity of a batch has the property. -/
def OfBatch (Ok : EntityType → Entity → Prop) (b : Batch) : Prop :=
  ∀ p ∈ b.pending, Ok b.type p.entity

lemma applyBatch (k : u.Keeps tx I Ok E) {step : Phase × Operation} {b : Batch}
    (hb : OfBatch Ok b) :
    Triple I (u.applyBatch tx step b) (fun b' p => I p ∧ OfBatch Ok b') E := by
  refine (Triple.mapM_all (q := fun q => Ok b.type q.entity) fun q hq => ?_).bind_of
    fun qs hqs => ?_
  · split
    · refine (k.writeTree (hb q hq)).bind_of fun e' he' => ?_
      exact Triple.pure fun p hp => ⟨hp, he'⟩
    · exact Triple.pure fun p hp => ⟨hp, hb q hq⟩
  · exact Triple.pure fun p hp => ⟨hp, hqs⟩

/-- All writes of a commit keep what each of them keeps. -/
theorem applyAll (k : u.Keeps tx I Ok E) {bs : List Batch} (hbs : ∀ b ∈ bs, OfBatch Ok b) :
    Triple I (u.applyAll tx bs) (fun bs' p => I p ∧ ∀ b ∈ bs', OfBatch Ok b) E := by
  refine Triple.foldlM (fun bs' step _ hbs' => ?_) hbs
  exact Triple.mapM_all fun b hb => k.applyBatch (hbs' b hb)

end Keeps

end UnitOfWork

end EntityStore
