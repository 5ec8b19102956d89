import EntityStore.Proofs.Update

/-!
The phase that a failed commit reports. It is the one that was under way, but for one case: what
hangs below a child that an update has just created is written as in an insert, and reported so.
-/

namespace EntityStore

/-! ### Loops that stop -/

namespace Fallible

variable {σ ε α β : Type}

/-- A loop that maps a list stops at one of its elements, and those before it have gone through. -/
lemma mapM_eq_error {xs : List α} {f : α → Fallible σ ε β} {s s' : σ} {e : ε} :
    xs.mapM f s = (.error e, s') ↔ ∃ before x after bs t, xs = before ++ x :: after ∧
      before.mapM f s = (.ok bs, t) ∧ f x t = (.error e, s') := by
  induction xs generalizing s with
  | nil =>
    constructor
    · intro h
      cases h
    · rintro ⟨before, x, after, -, -, h, -⟩
      simp at h
  | cons a xs ih =>
    rw [List.mapM_cons]
    constructor
    · intro h
      rcases bind_eq_error.mp h with h | ⟨b, t, ha, h⟩
      · exact ⟨[], a, xs, [], s, rfl, rfl, h⟩
      · rcases bind_eq_error.mp h with h | ⟨bs, t', -, h⟩
        · obtain ⟨before, x, after, bs, t', rfl, hbefore, hx⟩ := ih.mp h
          refine ⟨a :: before, x, after, b :: bs, t', rfl, ?_, hx⟩
          rw [List.mapM_cons, bind_of_ok ha, bind_of_ok hbefore]
          rfl
        · cases h
    · rintro ⟨before, x, after, bs, t, hxs, hbefore, hx⟩
      rcases before with _ | ⟨a', before⟩
      · cases hbefore
        cases hxs
        exact bind_of_error hx
      · obtain ⟨rfl, rfl⟩ := List.cons.inj hxs
        rw [List.mapM_cons] at hbefore
        obtain ⟨b, t₁, ha, hbound⟩ := bind_eq_ok.mp hbefore
        obtain ⟨bs', t₂, hrest, hbs⟩ := bind_eq_ok.mp hbound
        obtain ⟨-, rfl⟩ := Prod.mk.inj hbs
        have hstop := ih.mpr ⟨before, x, after, bs', t₂, rfl, hrest, hx⟩
        rw [bind_of_ok ha]
        exact bind_of_error hstop

/-- A loop that carries a value along stops at one of the elements. -/
lemma foldlM_eq_error {xs : List α} {f : β → α → Fallible σ ε β} {b : β} {s s' : σ} {e : ε} :
    xs.foldlM f b s = (.error e, s') ↔ ∃ before x after b' t, xs = before ++ x :: after ∧
      before.foldlM f b s = (.ok b', t) ∧ f b' x t = (.error e, s') := by
  induction xs generalizing b s with
  | nil =>
    constructor
    · intro h
      cases h
    · rintro ⟨before, x, after, -, -, h, -⟩
      simp at h
  | cons a xs ih =>
    rw [List.foldlM_cons]
    constructor
    · intro h
      rcases bind_eq_error.mp h with h | ⟨b₁, t, ha, h⟩
      · exact ⟨[], a, xs, b, s, rfl, rfl, h⟩
      · obtain ⟨before, x, after, b', t', rfl, hbefore, hx⟩ := ih.mp h
        refine ⟨a :: before, x, after, b', t', rfl, ?_, hx⟩
        rw [List.foldlM_cons, bind_of_ok ha]
        exact hbefore
    · rintro ⟨before, x, after, b', t, hxs, hbefore, hx⟩
      rcases before with _ | ⟨a', before⟩
      · cases hbefore
        cases hxs
        exact bind_of_error hx
      · obtain ⟨rfl, rfl⟩ := List.cons.inj hxs
        rw [List.foldlM_cons] at hbefore
        obtain ⟨b₁, t₁, ha, hbefore⟩ := bind_eq_ok.mp hbefore
        rw [bind_of_ok ha]
        exact ih.mpr ⟨before, x, after, b', t, rfl, hbefore, hx⟩

end Fallible

open Fallible

namespace Committing

variable {α : Type} {entity : String} {phase : Phase} {p q : Progress} {h : Halt}

/-- What stops a step is put down to the phase it was made in. -/
lemma ofStep_eq_error {x : Step Error α} (hx : ofStep entity phase x p = (.error h, q)) :
    h.phase = phase := by
  unfold ofStep at hx
  rcases hr : x p.world with ⟨e | a, w⟩
  · rw [hr] at hx
    cases hx
    rfl
  · rw [hr] at hx
    cases hx

lemma ofExcept_eq_error {x : Except Error α} (hx : ofExcept entity phase x p = (.error h, q)) :
    h.phase = phase :=
  ofStep_eq_error hx

end Committing

namespace UnitOfWork

variable {u : UnitOfWork} {tx : Transaction} {phase : Phase} {op : Operation} {T : EntityType}
  {e c : Entity} {r : Relation} {s : Schema} {v : Value} {p q : Progress} {h : Halt}
  {below : Phase → EntityType → Entity → Committing Entity}

lemma phase_of_write (hw : u.write tx phase op T e p = (.error h, q)) : h.phase = phase := by
  rcases bind_eq_error.mp hw with hw | ⟨s, p₁, -, hw⟩
  · exact Committing.ofExcept_eq_error hw
  · rcases bind_eq_error.mp hw with hw | ⟨e₁, p₂, -, hw⟩
    · exact Committing.ofStep_eq_error hw
    · rcases bind_eq_error.mp hw with hw | ⟨_, p₃, -, hw⟩ <;> cases hw

/-! ### Below one entity -/

section Below

variable (u : UnitOfWork) (tx : Transaction)

/-- What is written below an entity comes to a child under a relation: the relations before that one
have gone through, and under it the children before. -/
inductive ComesTo (below : Phase → EntityType → Entity → Committing Entity) (phase : Phase)
    (T : EntityType) (e : Entity) (p : Progress) :
    Relation → Schema → Value → Entity → Progress → Prop
  | intro {done rest : List Relation} {r : Relation} {e₁ : Entity} {p₀ p₁ : Progress} {v : Value}
    {s : DataStore} {before after written : List Entity} {c : Entity}
    (relations : u.relationsOf T = done ++ r :: rest)
    (gone : done.foldlM (u.writeChildren tx below phase) e p = (.ok e₁, p₀))
    (value : r.parent.read e₁ r.join.parentField = .ok v) (store : u.store r.child = .ok s)
    (children : e₁.collection r.navigation = before ++ c :: after)
    (earlier : before.mapM (u.writeChild tx below phase r s.adapter.schema v) p₀ =
      (.ok written, p₁)) :
    ComesTo below phase T e p r s.adapter.schema v c p₁

/-- An update of what hangs below an entity creates a child there, at any depth, and what hangs
below that child stops the commit. -/
inductive StopsBelowCreated (h : Halt) (q : Progress) : Nat → EntityType → Entity → Progress → Prop
  | created {levels : Nat} {T : EntityType} {e c c₁ c₂ : Entity} {r : Relation} {s : Schema}
    {v : Value} {p p₁ p₂ : Progress}
    (comes : u.ComesTo tx (u.cascadeWithin tx levels) .update T e p r s v c p₁)
    (joined : r.child.assign c r.join.childField v = .ok c₁)
    (transient : s.isTransient r.child c₁ = true)
    (written : u.write tx .update .insert r.child c₁ p₁ = (.ok c₂, p₂))
    (stops : u.cascadeWithin tx levels .insert r.child c₂ p₂ = (.error h, q)) :
    StopsBelowCreated h q (levels + 1) T e p
  | updated {levels : Nat} {T : EntityType} {e c c₁ c₂ : Entity} {r : Relation} {s : Schema}
    {v : Value} {p p₁ p₂ : Progress}
    (comes : u.ComesTo tx (u.cascadeWithin tx levels) .update T e p r s v c p₁)
    (joined : r.child.assign c r.join.childField v = .ok c₁)
    (settled : s.isTransient r.child c₁ = false)
    (written : u.write tx .update .update r.child c₁ p₁ = (.ok c₂, p₂))
    (below : StopsBelowCreated h q levels r.child c₂ p₂) :
    StopsBelowCreated h q (levels + 1) T e p

end Below

/-- What stops the children under the relations of an entity is one of them, unless it comes before
the first under its relation. -/
lemma comesTo_of_error
    (hr : (u.relationsOf T).foldlM (u.writeChildren tx below phase) e p = (.error h, q)) :
    h.phase = phase ∨ ∃ r s v c p₁, u.ComesTo tx below phase T e p r s v c p₁ ∧
      u.writeChild tx below phase r s v c p₁ = (.error h, q) := by
  obtain ⟨done, r, rest, e₁, p₀, hrelations, hgone, hr⟩ := foldlM_eq_error.mp hr
  simp only [writeChildren] at hr
  split at hr
  · cases hr
  · rcases bind_eq_error.mp hr with hr | ⟨v, p₁, hv, hr⟩
    · exact .inl (Committing.ofExcept_eq_error hr)
    obtain ⟨hvalue, rfl⟩ := Committing.ofExcept_eq_ok hv
    rcases bind_eq_error.mp hr with hr | ⟨s, p₁, hs, hr⟩
    · exact .inl (Committing.ofExcept_eq_error hr)
    obtain ⟨hstore, rfl⟩ := Committing.ofExcept_eq_ok hs
    rcases bind_eq_error.mp hr with hr | ⟨cs, p₁, -, hr⟩
    · obtain ⟨before, c, after, written, p₁, hchildren, hearlier, hc⟩ := mapM_eq_error.mp hr
      exact .inr ⟨r, _, v, c, p₁, .intro hrelations hgone hvalue hstore hchildren hearlier, hc⟩
    · cases hr

/-- What stops a child stops all that is written below its parent. -/
lemma ComesTo.stops {p₁ : Progress} (hcomes : u.ComesTo tx below phase T e p r s v c p₁)
    (hc : u.writeChild tx below phase r s v c p₁ = (.error h, q)) :
    (u.relationsOf T).foldlM (u.writeChildren tx below phase) e p = (.error h, q) := by
  obtain @⟨done, rest, _, e₁, p₀, _, _, s, before, after, written, _,
    hrelations, hgone, hvalue, hstore, hchildren, hearlier⟩ := hcomes
  rw [foldlM_eq_error]
  refine ⟨done, r, rest, e₁, p₀, hrelations, hgone, ?_⟩
  have hnonempty : ¬ (e₁.collection r.navigation).isEmpty := by
    rw [hchildren]
    simp
  have hmap := mapM_eq_error.mpr ⟨_, _, _, _, _, hchildren, hearlier, hc⟩
  simp only [writeChildren]
  rw [if_neg hnonempty, hvalue, hstore]
  exact (bind_of_ok rfl).trans ((bind_of_ok rfl).trans (bind_of_error hmap))

/-- What is written below an entity is reported under its own phase, but for what hangs below a
child that an update creates, which is reported as of an insert. -/
lemma phase_of_cascadeWithin {levels : Nat}
    (hc : u.cascadeWithin tx levels phase T e p = (.error h, q)) :
    h.phase = phase ∨
      phase = .update ∧ h.phase = .insert ∧ u.StopsBelowCreated tx h q levels T e p := by
  induction levels generalizing phase T e p with
  | zero => cases hc
  | succ levels ih =>
    rcases comesTo_of_error hc with hphase | ⟨r, s, v, c, p₁, hcomes, hc⟩
    · exact .inl hphase
    cases phase with
    | insert =>
      rcases bind_eq_error.mp hc with hc | ⟨c₁, p₂, -, hc⟩
      · exact .inl (Committing.ofExcept_eq_error hc)
      rcases bind_eq_error.mp hc with hc | ⟨c₂, p₃, -, hc⟩
      · exact .inl (phase_of_write hc)
      · exact .inl ((ih hc).resolve_right (by simp))
    | update =>
      rcases bind_eq_error.mp hc with hc | ⟨c₁, p₂, ha, hc⟩
      · exact .inl (Committing.ofExcept_eq_error hc)
      obtain ⟨hjoined, rfl⟩ := Committing.ofExcept_eq_ok ha
      split at hc
      · rename_i htransient
        rcases bind_eq_error.mp hc with hc | ⟨c₂, p₃, hwritten, hc⟩
        · exact .inl (phase_of_write hc)
        have hinsert := (ih hc).resolve_right (by simp)
        exact .inr ⟨rfl, hinsert, .created hcomes hjoined htransient hwritten hc⟩
      · rename_i htransient
        rcases bind_eq_error.mp hc with hc | ⟨c₂, p₃, hwritten, hc⟩
        · exact .inl (phase_of_write hc)
        have hsettled := Bool.eq_false_iff.mpr htransient
        exact (ih hc).imp_right fun ⟨_, hinsert, hbelow⟩ =>
          ⟨rfl, hinsert, .updated hcomes hjoined hsettled hwritten hbelow⟩
    | delete =>
      rcases bind_eq_error.mp hc with hc | ⟨c₁, p₂, -, hc⟩
      · exact .inl ((ih hc).resolve_right (by simp))
      · exact .inl (phase_of_write hc)
    | commit => cases hc

/-- The commit does stop there, and in an insert. -/
lemma StopsBelowCreated.stops {levels : Nat} (hb : u.StopsBelowCreated tx h q levels T e p) :
    u.cascadeWithin tx levels .update T e p = (.error h, q) ∧ h.phase = .insert := by
  induction hb with
  | created comes joined transient written stops =>
    refine ⟨comes.stops ?_, (phase_of_cascadeWithin stops).resolve_right (by simp)⟩
    simp only [writeChild, joined]
    refine (bind_of_ok rfl).trans ?_
    rw [if_pos transient]
    exact (bind_of_ok written).trans stops
  | updated comes joined settled written below ih =>
    refine ⟨comes.stops ?_, ih.2⟩
    simp only [writeChild, joined]
    refine (bind_of_ok rfl).trans ?_
    rw [if_neg (Bool.eq_false_iff.mp settled)]
    exact (bind_of_ok written).trans ih.1

/-! ### A whole commit -/

/-- The phase under way when the writes of the steps, made one step after another, stop; none if
they all go through. -/
def draining (u : UnitOfWork) (tx : Transaction) :
    List (Phase × Operation) → List Batch → Progress → Option Phase
  | [], _, _ => none
  | step :: steps, bs, p =>
    match bs.mapM (u.applyBatch tx step) p with
    | (.ok bs, p) => draining u tx steps bs p
    | (.error _, _) => some step.1

/-- An update from the batches stops the commit, not by itself but by what hangs below a child that
it has created; those before it have gone through. -/
inductive StopsUpdates (u : UnitOfWork) (tx : Transaction) (bs : List Batch) (p : Progress)
    (h : Halt) (q : Progress) : Prop
  | intro {drained drained' later : List Batch} {b b' : Batch} {done rest : List Pending}
    {x : Pending} {e : Entity} {p₁ p₂ p₃ : Progress}
    (batches : bs = drained ++ b :: later)
    (before : drained.mapM (u.applyBatch tx (.update, .update)) p = (.ok drained', p₁))
    (pending : b.pending = done ++ x :: rest)
    (earlier : u.applyBatch tx (.update, .update) { b with pending := done } p₁ = (.ok b', p₂))
    (updates : x.op = .update)
    (written : u.write tx .update .update b.type x.entity p₂ = (.ok e, p₃))
    (below : u.StopsBelowCreated tx h q e.height b.type e p₃) : StopsUpdates u tx bs p h q

section Stops

variable (u : UnitOfWork) (tx : Transaction) (w : World)

/-- The phase in which the writes of a commit stop. -/
def stopsIn : Option Phase := u.draining tx Phase.schedule u.batches { world := w }

/-- The writes of a commit stop below a child that an update has created. -/
def StopsUnderCreated : Prop :=
  ∃ bs p h q, u.batches.mapM (u.applyBatch tx (.insert, .insert)) { world := w } = (.ok bs, p) ∧
    u.StopsUpdates tx bs p h q

/-- The phase that is reported, by where the writes stop. -/
inductive Labels : Phase → Prop
  | insert (stops : u.stopsIn tx w = some .insert) : Labels .insert
  | created (stops : u.stopsIn tx w = some .update) (created : u.StopsUnderCreated tx w) :
    Labels .insert
  | update (stops : u.stopsIn tx w = some .update) (not_created : ¬u.StopsUnderCreated tx w) :
    Labels .update
  | delete (stops : u.stopsIn tx w = some .delete) : Labels .delete
  | commit (stops : u.stopsIn tx w = none) : Labels .commit

end Stops

section Commit

variable {b : Batch} {bs bs' : List Batch} {step : Phase × Operation} {w w₁ w' : World}

/-- What stops a tree is reported under the phase of its kind of write, but below a child that an
update creates. -/
lemma phase_of_writeTree (hw : u.writeTree tx op.phase op T e p = (.error h, q)) :
    h.phase = op.phase ∨ op = .update ∧ h.phase = .insert ∧ ∃ e₁ p₁,
      u.write tx .update .update T e p = (.ok e₁, p₁) ∧
        u.StopsBelowCreated tx h q e₁.height T e₁ p₁ := by
  cases op with
  | insert =>
    rcases bind_eq_error.mp hw with hw | ⟨e₁, p₁, -, hw⟩
    · exact .inl (phase_of_write hw)
    · exact .inl ((phase_of_cascadeWithin hw).resolve_right (by simp [Operation.phase]))
  | update =>
    rcases bind_eq_error.mp hw with hw | ⟨e₁, p₁, hwritten, hw⟩
    · exact .inl (phase_of_write hw)
    · exact (phase_of_cascadeWithin hw).imp_right fun ⟨_, hinsert, hbelow⟩ =>
        ⟨rfl, hinsert, e₁, p₁, hwritten, hbelow⟩
  | delete =>
    rcases bind_eq_error.mp hw with hw | ⟨e₁, p₁, -, hw⟩
    · exact .inl ((phase_of_cascadeWithin hw).resolve_right (by simp [Operation.phase]))
    · exact .inl (phase_of_write hw)

/-- A batch stops at one of its writes of the kind being made. -/
lemma applyBatch_eq_error : u.applyBatch tx step b p = (.error h, q) ↔
    ∃ done x rest b' p₁, b.pending = done ++ x :: rest ∧
      u.applyBatch tx step { b with pending := done } p = (.ok b', p₁) ∧ x.op = step.2 ∧
      u.writeTree tx step.1 step.2 b.type x.entity p₁ = (.error h, q) := by
  constructor
  · intro hb
    rcases bind_eq_error.mp hb with hb | ⟨_, _, -, hb⟩
    · obtain ⟨done, x, rest, xs, p₁, hpending, hdone, hx⟩ := mapM_eq_error.mp hb
      refine ⟨done, x, rest, _, p₁, hpending, bind_of_ok hdone, ?_⟩
      split at hx
      · rename_i hop
        rcases bind_eq_error.mp hx with hx | ⟨_, _, -, hx⟩
        · exact ⟨hop, hx⟩
        · cases hx
      · cases hx
    · cases hb
  · rintro ⟨done, x, rest, b', p₁, hpending, hdone, hop, hx⟩
    obtain ⟨xs, p₂, hmade, hpure⟩ := bind_eq_ok.mp hdone
    obtain ⟨-, rfl⟩ := Prod.mk.inj hpure
    refine bind_of_error (mapM_eq_error.mpr ⟨done, x, rest, xs, p₂, hpending, hmade, ?_⟩)
    rw [if_pos hop]
    exact bind_of_error hx

/-- What stops the batches is reported under the phase of the kind of write being made, but below a
child that an update creates. -/
lemma phase_of_batches (hbs : bs.mapM (u.applyBatch tx (op.phase, op)) p = (.error h, q)) :
    h.phase = op.phase ∨ op = .update ∧ h.phase = .insert ∧ u.StopsUpdates tx bs p h q := by
  obtain ⟨drained, b, later, drained', p₁, rfl, hbefore, hb⟩ := mapM_eq_error.mp hbs
  obtain ⟨done, x, rest, b', p₂, hpending, hearlier, hop, hx⟩ := applyBatch_eq_error.mp hb
  refine (phase_of_writeTree hx).imp_right ?_
  rintro ⟨rfl, hinsert, e, p₃, hwritten, hbelow⟩
  exact ⟨rfl, hinsert, .intro rfl hbefore hpending hearlier hop hwritten hbelow⟩

lemma StopsUpdates.stops (hs : u.StopsUpdates tx bs p h q) :
    bs.mapM (u.applyBatch tx (.update, .update)) p = (.error h, q) ∧ h.phase = .insert := by
  obtain ⟨hbatches, hbefore, hpending, hearlier, hop, hwritten, hbelow⟩ := hs
  obtain ⟨hstops, hinsert⟩ := hbelow.stops
  refine ⟨mapM_eq_error.mpr ⟨_, _, _, _, _, hbatches, hbefore, ?_⟩, hinsert⟩
  exact applyBatch_eq_error.mpr
    ⟨_, _, _, _, _, hpending, hearlier, hop, (bind_of_ok hwritten).trans hstops⟩

/-- Where all writes go through, they stop in no phase. -/
lemma stopsIn_of_ok (ha : u.applyAll tx u.batches { world := w } = (.ok bs', q)) :
    u.stopsIn tx w = none := by
  simp only [applyAll, Phase.schedule, List.foldlM_cons, List.foldlM_nil] at ha
  obtain ⟨bs₁, p₁, hinserts, ha⟩ := bind_eq_ok.mp ha
  obtain ⟨bs₂, p₂, hupdates, ha⟩ := bind_eq_ok.mp ha
  obtain ⟨bs₃, p₃, hdeletes, -⟩ := bind_eq_ok.mp ha
  simp only [stopsIn, Phase.schedule, draining, hinserts, hupdates, hdeletes]

/-- Where the writes stop, the phase in which they do so is reported, but below a child that an
update creates. -/
lemma labels_of_applyAll (ha : u.applyAll tx u.batches { world := w } = (.error h, q)) :
    u.Labels tx w h.phase := by
  simp only [applyAll, Phase.schedule, List.foldlM_cons, List.foldlM_nil] at ha
  rcases bind_eq_error.mp ha with ha | ⟨bs₁, p₁, hinserts, ha⟩
  · have hstops : u.stopsIn tx w = some .insert := by
      simp only [stopsIn, Phase.schedule, draining, ha]
    rw [(phase_of_batches ha).resolve_right (by simp)]
    exact .insert hstops
  rcases bind_eq_error.mp ha with ha | ⟨bs₂, p₂, hupdates, ha⟩
  · have hstops : u.stopsIn tx w = some .update := by
      simp only [stopsIn, Phase.schedule, draining, hinserts, ha]
    rcases phase_of_batches ha with hphase | ⟨-, hphase, hbelow⟩
    · rw [hphase]
      refine .update hstops ?_
      rintro ⟨bs, p, h', q', hinserts', hbelow⟩
      obtain ⟨rfl, rfl⟩ : bs₁ = bs ∧ p₁ = p := by
        cases hinserts.symm.trans hinserts'
        exact ⟨rfl, rfl⟩
      obtain ⟨hstop, hinsert⟩ := hbelow.stops
      obtain rfl : h = h' := by
        cases ha.symm.trans hstop
        rfl
      rw [hphase] at hinsert
      cases hinsert
    · rw [hphase]
      exact .created hstops ⟨bs₁, p₁, h, q, hinserts, hbelow⟩
  rcases bind_eq_error.mp ha with ha | ⟨bs₃, p₃, -, ha⟩
  · have hstops : u.stopsIn tx w = some .delete := by
      simp only [stopsIn, Phase.schedule, draining, hinserts, hupdates, ha]
    rw [(phase_of_batches ha).resolve_right (by simp)]
    exact .delete hstops
  · cases ha

/-- A failed commit stops in its writes, or all go through and the transaction is not committed. -/
lemma commit_eq_error {err : Error} (hc : u.commit.1 w = (.error err, w')) :
    u.openFor u.types w = (.error err, w') ∨ ∃ tx w₁ h p rolledBack,
      u.openFor u.types w = (.ok tx, w₁) ∧
      err = .commit p.applied rolledBack h.entity h.phase h.error ∧
      (u.applyAll tx u.batches { world := w₁ } = (.error h, p) ∨
        h.phase = .commit ∧ ∃ bs q, u.applyAll tx u.batches { world := w₁ } = (.ok bs, q)) := by
  rcases hbs : u.batches with _ | ⟨b, bs⟩
  · rw [commit_of_nil hbs] at hc
    cases hc
  · rw [commit_of_cons hbs, hbs] at hc
    rcases bind_eq_error.mp hc with hc | ⟨tx, w₁, hopen, hc⟩
    · exact .inl hc
    refine .inr ?_
    unfold commitBatches at hc
    rcases hw : u.applyAndCommit tx b.type.name (b :: bs) { world := w₁ } with ⟨h | bs', p⟩
    · rw [hw] at hc
      obtain ⟨herr, -⟩ := Prod.mk.inj hc
      refine ⟨tx, w₁, h, p, _, hopen, (Except.error.inj herr).symm, ?_⟩
      rcases bind_eq_error.mp hw with hw | ⟨bs', q, hwrites, hw⟩
      · exact .inl hw
      rcases bind_eq_error.mp hw with hw | ⟨_, q', -, hw⟩
      · rcases bind_eq_error.mp hw with hw | ⟨_, q', -, hw⟩
        · exact .inr ⟨Committing.ofStep_eq_error hw, bs', q, hwrites⟩
        · cases hw
      · cases hw
    · rw [hw] at hc
      cases hc

/-- Opening a transaction is refused as the backend refuses, not as a commit. -/
lemma openFor_eq_error {types : List String} {err : Error}
    (ho : u.openFor types w = (.error err, w')) : ∃ report, err = .backendExecution report := by
  rw [openFor] at ho
  rcases hb : u.sharedBackend (u.participants types) with _ | b
  · rw [hb] at ho
    cases ho
  · rw [hb] at ho
    rcases bind_eq_error.mp ho with ho | ⟨_, _, -, ho⟩
    · rw [Step.executed, adapt_apply] at ho
      rcases hcall : Backend.call b .begin w with ⟨report | _, w₁⟩ <;> rw [hcall] at ho <;> cases ho
      exact ⟨report, rfl⟩
    · cases ho

/-- **The reported phase.** A commit that fails reports the phase in which its writes have stopped,
or the commit itself where they all went through. The one exception is what stops below a child that
an update has created: it is reported as of an insert, though no insert is being made. -/
theorem commit_phase {applied : Nat} {rolledBack : Bool} {entity : String} {cause : Error}
    (hc : u.commit.1 w = (.error (.commit applied rolledBack entity phase cause), w')) :
    ∃ tx w₁, u.openFor u.types w = (.ok tx, w₁) ∧
      (phase = .insert ↔ u.stopsIn tx w₁ = some .insert ∨
        u.stopsIn tx w₁ = some .update ∧ u.StopsUnderCreated tx w₁) ∧
      (phase = .update ↔ u.stopsIn tx w₁ = some .update ∧ ¬u.StopsUnderCreated tx w₁) ∧
      (phase = .delete ↔ u.stopsIn tx w₁ = some .delete) ∧
      (phase = .commit ↔ u.stopsIn tx w₁ = none) := by
  rcases commit_eq_error hc with hopen | ⟨tx, w₁, h, p, rolledBack', hopen, herr, hstop⟩
  · obtain ⟨e, he⟩ := openFor_eq_error hopen
    cases he
  · have hlabels : u.Labels tx w₁ phase := by
      cases herr
      rcases hstop with hstop | ⟨hphase, bs, q, hwrites⟩
      · exact labels_of_applyAll hstop
      · rw [hphase]
        exact .commit (stopsIn_of_ok hwrites)
    refine ⟨tx, w₁, hopen, ?_⟩
    cases hlabels <;> simp [*]

end Commit

end UnitOfWork

/-! ### A document in a new folder -/

namespace Archive

/-- An update that puts a new folder with a document into the one that is stored. Documents have no
store. -/
def filing : UnitOfWork where
  stores := [⟨folderAdapter, [⟨.update,
    folder 1 none "all" [folder 0 none "new" [] [document 0 0 "Index"]] []⟩]⟩]
  relations := [subfolders, documents]

lemma filing_opens : filing.openFor filing.types shelves =
    (.ok ⟨some (.memory "archive")⟩, (filing.openFor filing.types shelves).2) := rfl

lemma filing_commit : filing.commit.1 shelves =
    (.error (.commit 2 true "Document" .insert (.unregisteredEntity "Document")),
      (filing.commit.1 shelves).2) := rfl

lemma filing_stopsIn : filing.stopsIn ⟨some (.memory "archive")⟩
    (filing.openFor filing.types shelves).2 = some .update := rfl

/-- The folder and the new one in it are written. The document in the new one finds no store, while
the update is under way, and an insert is reported. -/
theorem filing_reported : ∃ w' tx w₁, filing.commit.1 shelves =
      (.error (.commit 2 true "Document" .insert (.unregisteredEntity "Document")), w') ∧
    filing.openFor filing.types shelves = (.ok tx, w₁) ∧ filing.stopsIn tx w₁ = some .update ∧
    filing.StopsUnderCreated tx w₁ := by
  obtain ⟨tx, w₁, hopen, hinsert, -⟩ := UnitOfWork.commit_phase filing_commit
  have hstops : filing.stopsIn tx w₁ = some .update := by
    cases filing_opens.symm.trans hopen
    exact filing_stopsIn
  refine ⟨_, tx, w₁, filing_commit, hopen, hstops, ?_⟩
  rcases hinsert.mp rfl with hnone | ⟨-, hcreated⟩
  · rw [hstops] at hnone
    cases hnone
  · exact hcreated

/-- So the reported phase is not always the one in which the writes stop. -/
theorem filing_mislabelled : ¬∀ (u : UnitOfWork) (w w' w₁ : World) (applied : Nat)
    (rolledBack : Bool) (entity : String) (phase : Phase) (cause : Error) (tx : Transaction),
    u.commit.1 w = (.error (.commit applied rolledBack entity phase cause), w') →
    u.openFor u.types w = (.ok tx, w₁) →
      (phase = .insert ↔ u.stopsIn tx w₁ = some .insert) ∧
      (phase = .update ↔ u.stopsIn tx w₁ = some .update) := by
  intro hclaim
  have hinsert := (hclaim _ _ _ _ _ _ _ _ _ _ filing_commit filing_opens).1.mp rfl
  rw [filing_stopsIn] at hinsert
  cases hinsert

end Archive

end EntityStore
