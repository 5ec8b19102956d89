import EntityStore.Proofs.Sequence

/-!
How a commit goes through its plan, and where it stops. Each part of it makes writes in a row: all
that it is there for, or the first of them up to a step that fails. This is shown of a single write
and carried along the recursion of the cascade, from children to relations to trees, and on to the
buffered entities phase by phase.
-/

namespace EntityStore

open Fallible

namespace Entity

lemma heightOfCollection_le {es : List Entity} {n : Nat} (h : ∀ e ∈ es, e.height < n) :
    heightOfCollection es ≤ n := by
  induction es with
  | nil => exact Nat.zero_le n
  | cons e es ih =>
    have he := h e (by simp)
    have hes := ih fun x hx => h x (by simp [hx])
    rw [heightOfCollection]
    omega

/-- Shallow children do not make an entity higher. -/
lemma height_withCollection_le {e : Entity} {n : Nat} (h : e.height ≤ n + 1) {navigation : String}
    {es : List Entity} (hes : ∀ c ∈ es, c.height ≤ n) :
    (e.withCollection navigation es).height ≤ n + 1 := by
  have hcollection : heightOfCollection es ≤ n + 1 :=
    heightOfCollection_le fun c hc => Nat.lt_succ_of_le (hes c hc)
  obtain ⟨scalars, children⟩ := e
  change heightOfAll children ≤ n + 1 at h
  change heightOfAll (children.map fun p => if p.1 = navigation then (p.1, es) else p) ≤ n + 1
  induction children with
  | nil => exact Nat.zero_le _
  | cons p children ih =>
    obtain ⟨name, cs⟩ := p
    rw [heightOfAll] at h
    have htail := ih (by omega)
    rw [List.map_cons]
    split
    · rw [heightOfAll]
      omega
    · rw [heightOfAll]
      omega

end Entity

namespace UnitOfWork

/-! ### Computations that write -/

section Makes

variable (u : UnitOfWork) (tx : Transaction)

/-- Between two points of a commit the writes were made in a row. They went through registered
stores, and were counted. -/
structure Advanced (p p' : Progress) (xs : List Attempt) : Prop where
  attempts : Attempts tx p.world xs p'.world
  stores : ∀ x ∈ xs, x.store ∈ u.stores
  ok : ∀ x ∈ xs, x.result.isOk
  applied : p'.applied = p.applied + xs.length

/-- The writes were made, and then the commit stopped: at one more write, which failed for the same
reason and is not counted, or before it. -/
structure Halted (p p' : Progress) (xs : List Attempt) (failed : Option Attempt) (h : Halt) :
    Prop where
  attempts : Attempts tx p.world (xs ++ failed.toList) p'.world
  stores : ∀ x ∈ xs ++ failed.toList, x.store ∈ u.stores
  ok : ∀ x ∈ xs, x.result.isOk
  fails : ∀ x ∈ failed, x.result = .error h.error
  applied : p'.applied = p.applied + xs.length

/-- A part of a commit makes writes. They are related to its result, or to where it stops. -/
def Makes {α : Type} (x : Committing α) (R : List Attempt → α → Prop)
    (S : List Attempt → Option Attempt → Halt → Prop) : Prop :=
  ∀ p, match x p with
    | (.ok a, p') => ∃ xs, u.Advanced tx p p' xs ∧ R xs a
    | (.error h, p') => ∃ xs failed, u.Halted tx p p' xs failed h ∧ S xs failed h

variable {u tx} {α β : Type} {p p₁ p₂ : Progress} {xs ys : List Attempt} {failed : Option Attempt}
  {h : Halt} {R R' : List Attempt → α → Prop} {Q : List Attempt → β → Prop}
  {S S' : List Attempt → Option Attempt → Halt → Prop}

lemma Advanced.nil (p : Progress) : u.Advanced tx p p [] := ⟨.nil, by simp, by simp, rfl⟩

lemma Advanced.append (h : u.Advanced tx p p₁ xs) (h' : u.Advanced tx p₁ p₂ ys) :
    u.Advanced tx p p₂ (xs ++ ys) where
  attempts := h.attempts.append h'.attempts
  stores := List.forall_mem_append.mpr ⟨h.stores, h'.stores⟩
  ok := List.forall_mem_append.mpr ⟨h.ok, h'.ok⟩
  applied := by rw [h'.applied, h.applied, List.length_append, Nat.add_assoc]

lemma Advanced.halted (hp : u.Advanced tx p p₁ xs) (hh : u.Halted tx p₁ p₂ ys failed h) :
    u.Halted tx p p₂ (xs ++ ys) failed h where
  attempts := by
    rw [List.append_assoc]
    exact hp.attempts.append hh.attempts
  stores := by
    rw [List.append_assoc]
    exact List.forall_mem_append.mpr ⟨hp.stores, hh.stores⟩
  ok := List.forall_mem_append.mpr ⟨hp.ok, hh.ok⟩
  fails := hh.fails
  applied := by rw [hh.applied, hp.applied, List.length_append, Nat.add_assoc]

lemma Halted.at_once (p : Progress) (h : Halt) : u.Halted tx p p [] none h :=
  ⟨.nil, by simp, by simp, by simp, rfl⟩

lemma Makes.mono {x : Committing α} (hx : u.Makes tx x R S) (hR : ∀ xs a, R xs a → R' xs a)
    (hS : ∀ xs failed h, S xs failed h → S' xs failed h) : u.Makes tx x R' S' := by
  intro p
  have hp := hx p
  rcases hr : x p with ⟨h | a, p'⟩
  · rw [hr] at hp
    obtain ⟨xs, failed, hhalted, hs⟩ := hp
    exact ⟨xs, failed, hhalted, hS _ _ _ hs⟩
  · rw [hr] at hp
    obtain ⟨xs, hadvanced, ha⟩ := hp
    exact ⟨xs, hadvanced, hR _ _ ha⟩

lemma Makes.pure {a : α} (h : R [] a) : u.Makes tx (Pure.pure a) R S :=
  fun p => ⟨[], .nil p, h⟩

/-- The writes of the second part come after those of the first. -/
lemma Makes.bind {x : Committing α} {f : α → Committing β} (hx : u.Makes tx x R S)
    (hS : ∀ xs failed h, S xs failed h → S' xs failed h)
    (hf : ∀ xs a, R xs a → u.Makes tx (f a) (fun ys b => Q (xs ++ ys) b)
      fun ys failed h => S' (xs ++ ys) failed h) : u.Makes tx (x >>= f) Q S' := by
  intro p
  have hp := hx p
  rcases hr : x p with ⟨h | a, p₁⟩
  · rw [hr] at hp
    obtain ⟨xs, failed, hhalted, hs⟩ := hp
    rw [bind_of_error hr]
    exact ⟨xs, failed, hhalted, hS _ _ _ hs⟩
  · rw [hr] at hp
    obtain ⟨xs, hadvanced, ha⟩ := hp
    have hp₁ := hf xs a ha p₁
    rw [bind_of_ok hr]
    rcases hr' : f a p₁ with ⟨h | b, p₂⟩
    · rw [hr'] at hp₁
      obtain ⟨ys, failed, hhalted, hs⟩ := hp₁
      exact ⟨xs ++ ys, failed, hadvanced.halted hhalted, hs⟩
    · rw [hr'] at hp₁
      obtain ⟨ys, hadvanced', hb⟩ := hp₁
      exact ⟨xs ++ ys, hadvanced.append hadvanced', hb⟩

/-- A result that is needed for the rest stops the commit at once if there is none. -/
lemma Makes.ofExcept_bind {entity : String} {phase : Phase} {x : Except Error α}
    {f : α → Committing β} (herror : ∀ err, x = .error err → S [] none ⟨entity, phase, err⟩)
    (hok : ∀ a, x = .ok a → u.Makes tx (f a) Q S) :
    u.Makes tx (Committing.ofExcept entity phase x >>= f) Q S := by
  rcases x with err | a
  · intro p
    rw [bind_of_error (Committing.ofExcept_apply (.error err) p)]
    exact ⟨[], none, .at_once p _, herror err rfl⟩
  · intro p
    rw [bind_of_ok (Committing.ofExcept_apply (.ok a) p)]
    exact hok a rfl p

/-- A write through the store of its type is made and counted, or it fails. -/
lemma makes_write {s : DataStore} {T : EntityType} (hs : u.store? T.name = some s) (phase : Phase)
    (op : Operation) (e : Entity) : u.Makes tx (u.write tx phase op T e)
      (fun xs e₁ => s.adapter.Leaves op e e₁ ∧ xs = [⟨s, op, e, .ok e₁⟩])
      fun xs failed h => ∃ err,
        xs = [] ∧ failed = some ⟨s, op, e, .error err⟩ ∧ h = ⟨T.name, phase, err⟩ := by
  have hmem := (store?_eq_some hs).1
  have hstore : u.store T = .ok s := by rw [store, hs]
  unfold write
  refine .ofExcept_bind (fun err herr => ?_) fun s' hs' => ?_
  · rw [hstore] at herr
    cases herr
  · rw [hstore] at hs'
    cases hs'
    intro p
    rcases hw : s.adapter.write tx op e p.world with ⟨err | e₁, w₁⟩
    · rw [bind_of_error (Committing.ofStep_of_error hw)]
      exact ⟨[], some ⟨s, op, e, .error err⟩,
        ⟨.one hw, by simpa using hmem, by simp, by simp, rfl⟩, err, rfl, rfl, rfl⟩
    · rw [bind_of_ok (Committing.ofStep_of_ok hw)]
      refine ⟨[⟨s, op, e, .ok e₁⟩], ⟨.one hw, by simpa using hmem, fun x hx => ?_, rfl⟩,
        (Adapter.write_ok hw).2, rfl⟩
      rw [List.mem_singleton.mp hx]
      rfl

end Makes

/-! ### One tree -/

/-- What is written below entities of limited height is what hangs there, or the first of it. -/
def MakesBelow (u : UnitOfWork) (tx : Transaction) (levels : Nat)
    (below : Phase → EntityType → Entity → Committing Entity) : Prop :=
  ∀ op T e, e.height ≤ levels → u.Makes tx (below (Operation.phase op) T e)
    (fun xs e' => u.BeginsBelow op (u.relationsOf T) e xs (some e') ∧ e'.height ≤ levels)
    (u.StopsBelow op (u.relationsOf T) e)

section Below

variable {u : UnitOfWork} {tx : Transaction} {levels : Nat}
  {below : Phase → EntityType → Entity → Committing Entity} {phase : Phase} {op : Operation}
  {T : EntityType} {e c : Entity} {r : Relation} {s : DataStore}

/-- A parent is written before what hangs below it. -/
lemma makes_written (hop : op ≠ .delete) (hs : u.store? T.name = some s) {K : Entity → Prop}
    {f : Entity → Committing Entity} (hf : ∀ e₁, e₁.children = e.children → u.Makes tx (f e₁)
      (fun xs e' => u.BeginsBelow op (u.relationsOf T) e₁ xs (some e') ∧ K e')
      (u.StopsBelow op (u.relationsOf T) e₁)) :
    u.Makes tx (u.write tx phase op T e >>= f)
      (fun xs e' => u.Begins op T e xs (some e') ∧ K e') (u.Stops phase op T e) := by
  refine (makes_write hs phase op e).bind (fun xs failed h hfail => ?_) fun xs e₁ hwrite => ?_
  · obtain ⟨err, rfl, rfl, rfl⟩ := hfail
    exact .refused hop hs
  · obtain ⟨hleaves, rfl⟩ := hwrite
    exact (hf e₁ hleaves.children).mono (fun ys e' h => ⟨.first hop hs hleaves h.1, h.2⟩)
      fun ys failed h hstops => .first hop hs hleaves hstops

lemma MakesBelow.written (hb : u.MakesBelow tx levels below) (hop : op ≠ .delete)
    (hs : u.store? T.name = some s) (hh : e.height ≤ levels) :
    u.Makes tx (u.write tx phase op T e >>= below op.phase T)
      (fun xs e' => u.Begins op T e xs (some e') ∧ e'.height ≤ levels) (u.Stops phase op T e) :=
  makes_written hop hs fun e₁ hchildren => hb op T e₁ (by rwa [Entity.height_congr hchildren])

/-- What is deleted goes after what hangs below it. -/
lemma MakesBelow.deleted (hb : u.MakesBelow tx levels below) (hs : u.store? T.name = some s)
    (hh : e.height ≤ levels) : u.Makes tx (below .delete T e >>= u.write tx phase .delete T)
      (fun xs e' => u.Begins .delete T e xs (some e') ∧ e'.height ≤ levels)
      (u.Stops phase .delete T e) := by
  refine (hb .delete T e hh).bind (fun xs failed h hstops => .under hstops) fun xs e₁ hbelow => ?_
  refine (makes_write hs phase .delete e₁).mono (fun ys e₂ hwrite => ?_) fun ys failed h hfail => ?_
  · obtain ⟨hleaves, rfl⟩ := hwrite
    obtain rfl := hleaves.eq_of_ne (by decide)
    exact ⟨.last hs hbelow.1, hbelow.2⟩
  · obtain ⟨err, rfl, rfl, rfl⟩ := hfail
    rw [List.append_nil]
    exact .last hs hbelow.1

/-- A child is given the value of its parent, and then written with what hangs below it. -/
lemma MakesBelow.child (hb : u.MakesBelow tx levels below) (hs : u.store? r.child.name = some s)
    {parent : Record} {v : Value} (hv : r.parent.get parent r.join.parentField = some v)
    (hh : c.height ≤ levels) (cs : List Entity) :
    u.Makes tx (u.writeChild tx below op.phase r s.adapter.schema v c)
      (fun xs c' => (∃ c₁, Receives op parent r c c₁ ∧
        u.Begins (u.childOperation op r c₁) r.child c₁ xs (some c')) ∧ c'.height ≤ levels)
      (u.StopsEach op r parent (c :: cs)) := by
  have hreceives : ∀ {c₁}, op ≠ .delete → r.child.assign c r.join.childField v = .ok c₁ →
      Receives op parent r c c₁ := by
    intro c₁ hop hassign
    rw [Receives, if_neg hop]
    exact ⟨v, hv, hassign⟩
  have hwritten : ∀ {phase child c₁}, Receives op parent r c c₁ → u.childOperation op r c₁ = child →
      phase = op.phase → child ≠ .delete →
      u.Makes tx (u.write tx phase child r.child c₁ >>= below child.phase r.child)
        (fun xs c' => (∃ c₁, Receives op parent r c c₁ ∧
          u.Begins (u.childOperation op r c₁) r.child c₁ xs (some c')) ∧ c'.height ≤ levels)
        (u.StopsEach op r parent (c :: cs)) := by
    rintro phase child c₁ hc rfl rfl hop
    have hh₁ : c₁.height ≤ levels := by rwa [Entity.height_congr hc.children]
    exact (hb.written hop hs hh₁).mono (fun xs c' h => ⟨⟨c₁, hc, h.1⟩, h.2⟩)
      fun xs failed h hstops => .head hc hstops
  cases op with
  | insert =>
    refine .ofExcept_bind (fun err h => .unassignable (by decide) hv h) fun c₁ h => ?_
    exact hwritten (hreceives (by decide) h) rfl rfl (by decide)
  | update =>
    refine .ofExcept_bind (fun err h => .unassignable (by decide) hv h) fun c₁ h => ?_
    have hc := hreceives (by decide) h
    by_cases ht : s.adapter.schema.isTransient r.child c₁
    · rw [if_pos ht]
      exact hwritten hc (by simp [childOperation, hs, ht]) rfl (by decide)
    · rw [if_neg ht]
      exact hwritten hc (by simp [childOperation, hs, ht]) rfl (by decide)
  | delete =>
    have hsame : Receives .delete parent r c c := rfl
    exact (hb.deleted hs hh).mono (fun xs c' h => ⟨⟨c, hsame, h.1⟩, h.2⟩)
      fun xs failed h hstops => .head hsame hstops

lemma MakesBelow.children (hb : u.MakesBelow tx levels below)
    (hs : u.store? r.child.name = some s) {parent : Record} {v : Value}
    (hv : r.parent.get parent r.join.parentField = some v) {cs : List Entity}
    (hcs : ∀ c ∈ cs, c.height ≤ levels) :
    u.Makes tx (cs.mapM (u.writeChild tx below op.phase r s.adapter.schema v))
      (fun xs cs' => u.BeginsEach op r parent cs xs (some cs') ∧ ∀ c ∈ cs', c.height ≤ levels)
      (u.StopsEach op r parent cs) := by
  induction cs with
  | nil => exact .pure ⟨.nil, by simp⟩
  | cons c cs ih =>
    rw [List.mapM_cons]
    refine (hb.child hs hv (hcs c (by simp)) cs).bind (fun xs failed h hstops => hstops)
      fun xs c' h => ?_
    obtain ⟨⟨c₁, hreceives, hbegins⟩, hc'⟩ := h
    refine (ih fun x hx => hcs x (by simp [hx])).bind
      (fun ys failed h hstops => .tail hreceives hbegins hstops) fun ys cs' h => .pure ?_
    rw [List.append_nil]
    exact ⟨.cons hreceives hbegins h.1, List.forall_mem_cons.mpr ⟨hc', h.2⟩⟩

/-- The children under one relation, if there are any. -/
lemma MakesBelow.collection (hb : u.MakesBelow tx levels below) (r : Relation) (rs : List Relation)
    (hh : e.height ≤ levels + 1) : u.Makes tx (u.writeChildren tx below op.phase e r)
      (fun xs e' => e'.height ≤ levels + 1 ∧
        ((e.collection r.navigation = [] ∧ xs = [] ∧ e' = e) ∨
          ∃ cs, u.BeginsEach op r e.scalars (e.collection r.navigation) xs (some cs) ∧
            e' = e.withCollection r.navigation cs))
      (u.StopsBelow op (r :: rs) e) := by
  have hcs : ∀ c ∈ e.collection r.navigation, c.height ≤ levels := by
    intro c hc
    have := Entity.height_lt_of_mem_collection hc
    omega
  unfold writeChildren
  dsimp only
  split
  · rename_i hempty
    exact .pure ⟨hh, .inl ⟨List.isEmpty_iff.mp hempty, rfl, rfl⟩⟩
  · rename_i hsome
    have hne : e.collection r.navigation ≠ [] := mt List.isEmpty_iff.mpr hsome
    refine .ofExcept_bind (fun err h => ?_) fun v hv => ?_
    · obtain ⟨hhidden, rfl⟩ := EntityType.read_eq_error h
      exact .unreadable hne hhidden
    have hv := EntityType.read_eq_ok hv
    refine .ofExcept_bind (fun err h => ?_) fun s hs => ?_
    · obtain ⟨hmissing, rfl⟩ := store_eq_error h
      exact .unregistered hne hv hmissing
    have hs := store_eq_ok hs
    refine (hb.children hs hv hcs).bind (fun xs failed h hstops => .within hv hs hstops)
      fun xs cs h => .pure ⟨Entity.height_withCollection_le hh h.2, .inr ⟨cs, ?_, rfl⟩⟩
    rw [List.append_nil]
    exact h.1

lemma MakesBelow.relations (hb : u.MakesBelow tx levels below) (rs : List Relation)
    (hh : e.height ≤ levels + 1) :
    u.Makes tx (rs.foldlM (u.writeChildren tx below op.phase) e)
      (fun xs e' => u.BeginsBelow op rs e xs (some e') ∧ e'.height ≤ levels + 1)
      (u.StopsBelow op rs e) := by
  induction rs generalizing e with
  | nil => exact .pure ⟨.nil, hh⟩
  | cons r rs ih =>
    rw [List.foldlM_cons]
    refine (hb.collection r rs hh).bind (fun xs failed h hstops => hstops) fun xs e' h => ?_
    obtain ⟨hh', ⟨hempty, rfl, rfl⟩ | ⟨cs, hcs, rfl⟩⟩ := h
    · exact (ih hh').mono (fun ys e'' h => ⟨.empty hempty h.1, h.2⟩)
        fun ys failed h hstops => .empty hempty hstops
    · exact (ih hh').mono (fun ys e'' h => ⟨.after hcs h.1, h.2⟩)
        fun ys failed h hstops => .after hcs hstops

end Below

variable {u : UnitOfWork} {tx : Transaction} {op : Operation} {T : EntityType} {e : Entity}

lemma beginsBelow_of_childless (h : ∀ navigation, e.collection navigation = [])
    (rs : List Relation) : u.BeginsBelow op rs e [] (some e) := by
  induction rs with
  | nil => exact .nil
  | cons r rs ih => exact .empty (h r.navigation) ih

/-- A cascade down to enough levels writes all that hangs below. -/
lemma makesBelow_cascadeWithin (levels : Nat) :
    u.MakesBelow tx levels (u.cascadeWithin tx levels) := by
  induction levels with
  | zero =>
    intro op T e hh
    have hnone : ∀ navigation, e.collection navigation = [] := by
      refine fun navigation => List.eq_nil_iff_forall_not_mem.mpr fun c hc => ?_
      have := Entity.height_lt_of_mem_collection hc
      omega
    exact .pure ⟨beginsBelow_of_childless hnone _, hh⟩
  | succ levels ih => exact fun op T e hh => ih.relations (u.relationsOf T) hh

lemma makes_writeTree {s : DataStore} (hs : u.store? T.name = some s) :
    u.Makes tx (u.writeTree tx op.phase op T e) (fun xs e' => u.Begins op T e xs (some e'))
      (u.Stops op.phase op T e) := by
  have hb : u.MakesBelow tx e.height (u.cascadeWithin tx e.height) :=
    makesBelow_cascadeWithin e.height
  have hwritten : op ≠ .delete → u.Makes tx
      (u.write tx op.phase op T e >>= u.cascade tx op.phase T)
      (fun xs e' => u.Begins op T e xs (some e') ∧ e'.height ≤ e.height)
      (u.Stops op.phase op T e) := by
    refine fun hop => makes_written hop hs fun e₁ hchildren => ?_
    have hheight := Entity.height_congr hchildren
    rw [cascade, hheight]
    exact hb op T e₁ (Nat.le_of_eq hheight)
  have hleft : ∀ xs e', u.Begins op T e xs (some e') ∧ e'.height ≤ e.height →
      u.Begins op T e xs (some e') := fun _ _ h => h.1
  cases op with
  | delete => exact (hb.deleted hs (Nat.le_refl _)).mono hleft fun _ _ _ h => h
  | insert => exact (hwritten (by decide)).mono hleft fun _ _ _ h => h
  | update => exact (hwritten (by decide)).mono hleft fun _ _ _ h => h

/-! ### Phases -/

/-- Of the buffered entities, by kind of write, those of one kind have been written in their order.
The others are as they were, and all have stores. -/
def Phased {α : Type} (u : UnitOfWork) (op : Operation)
    (roots : Operation → α → List (EntityType × Entity)) (a : α) (xs : List Attempt) (a' : α) :
    Prop :=
  u.BeginsAll ((roots op a).map (op, ·)) xs (some ((roots op a').map (op, ·))) ∧
    (∀ other, other ≠ op → roots other a' = roots other a) ∧
    ∀ op, ∀ x ∈ roots op a', (u.store? x.1.name).isSome

/-- What goes through all the elements of a list goes through the list. -/
lemma makes_mapM {α : Type} {roots : Operation → α → List (EntityType × Entity)}
    {f : α → Committing α} {as : List α} (h : ∀ a ∈ as, u.Makes tx (f a) (u.Phased op roots a)
      (u.StopsAll ((roots op a).map (op, ·)))) :
    u.Makes tx (as.mapM f) (u.Phased op (fun op as => as.flatMap (roots op)) as)
      (u.StopsAll ((as.flatMap (roots op)).map (op, ·))) := by
  induction as with
  | nil => exact .pure ⟨.nil, by simp, by simp⟩
  | cons a as ih =>
    rw [List.mapM_cons]
    have hcons : ∀ op (b : α) (bs : List α), ((b :: bs).flatMap (roots op)).map (op, ·) =
        (roots op b).map (op, ·) ++ (bs.flatMap (roots op)).map (op, ·) := by simp
    rw [hcons]
    refine (h a (by simp)).bind (fun xs failed h hstops => hstops.append _) fun xs a' hxs => ?_
    obtain ⟨hbegins, hsame, hstored⟩ := hxs
    refine (ih fun b hb => h b (by simp [hb])).bind
      (fun ys failed h hstops => hbegins.stops hstops) fun ys as' hys => .pure ?_
    obtain ⟨hbegins', hsame', hstored'⟩ := hys
    refine ⟨?_, fun other ho => ?_, fun op => ?_⟩
    · rw [hcons, hcons, List.append_nil]
      exact hbegins.append hbegins'
    · dsimp only
      rw [List.flatMap_cons, List.flatMap_cons, hsame other ho]
      exact congrArg (roots other a ++ ·) (hsame' other ho)
    · exact List.forall_mem_append.mpr ⟨hstored op, hstored' op⟩

end UnitOfWork

/-- A buffered entity among those of its kind of write. -/
def Pending.roots (T : EntityType) (op : Operation) (q : Pending) : List (EntityType × Entity) :=
  if q.op = op then [(T, q.entity)] else []

lemma Pending.eq_of_mem_roots {T : EntityType} {op : Operation} {q : Pending}
    {x : EntityType × Entity} (h : x ∈ q.roots T op) : x = (T, q.entity) := by
  unfold roots at h
  split at h
  · exact List.mem_singleton.mp h
  · cases h

lemma Batch.roots_eq (op : Operation) (b : Batch) :
    b.roots op = b.pending.flatMap (Pending.roots b.type op) := by
  rw [roots]
  generalize b.pending = qs
  induction qs with
  | nil => rfl
  | cons q qs ih =>
    rw [List.flatMap_cons, ← ih, Pending.roots]
    by_cases h : q.op = op <;> simp [h]

namespace UnitOfWork

variable {u : UnitOfWork} {tx : Transaction} {op : Operation}

/-- Buffered entities are written if they are of the kind, and left alone if not. -/
lemma makes_pending {T : EntityType} (hT : (u.store? T.name).isSome) (q : Pending) :
    u.Makes tx (if q.op = op then do
        return { q with entity := ← u.writeTree tx op.phase op T q.entity }
      else return q : Committing Pending) (u.Phased op (Pending.roots T) q)
      (u.StopsAll ((q.roots T op).map (op, ·))) := by
  obtain ⟨s, hs⟩ := Option.isSome_iff_exists.mp hT
  have hstored : ∀ (q' : Pending) op, ∀ x ∈ q'.roots T op, (u.store? x.1.name).isSome := by
    intro q' op x hx
    rw [Pending.eq_of_mem_roots hx]
    exact hT
  by_cases hop : q.op = op
  · have hroots : ∀ e, Pending.roots T op { q with entity := e } = [(T, e)] :=
      fun e => if_pos hop
    rw [if_pos hop, show q.roots T op = [(T, q.entity)] from if_pos hop]
    refine (makes_writeTree hs).bind (fun xs failed h hstops => .head hstops) fun xs e' h => ?_
    refine .pure ⟨?_, fun other ho => by simp [Pending.roots, hop, Ne.symm ho], hstored _⟩
    rw [hroots q.entity, hroots e']
    exact .cons h .nil
  · rw [if_neg hop, show q.roots T op = [] from if_neg hop]
    refine .pure ⟨?_, fun _ _ => rfl, hstored q⟩
    rw [show q.roots T op = [] from if_neg hop]
    exact .nil

lemma makes_applyBatch {b : Batch} (hb : ∀ op, ∀ x ∈ b.roots op, (u.store? x.1.name).isSome) :
    u.Makes tx (u.applyBatch tx (op.phase, op) b) (u.Phased op Batch.roots b)
      (u.StopsAll ((b.roots op).map (op, ·))) := by
  have hstored : ∀ q ∈ b.pending, (u.store? b.type.name).isSome := by
    intro q hq
    refine hb q.op (b.type, q.entity) ?_
    rw [Batch.roots_eq]
    exact List.mem_flatMap.mpr ⟨q, hq, by simp [Pending.roots]⟩
  rw [Batch.roots_eq]
  refine (makes_mapM fun q hq => makes_pending (hstored q hq) q).bind
    (fun xs failed h hstops => hstops) fun xs qs h => .pure ?_
  obtain ⟨hbegins, hsame, hstored⟩ := h
  rw [List.append_nil]
  refine ⟨?_, ?_, ?_⟩
  · rw [Batch.roots_eq, Batch.roots_eq]
    exact hbegins
  · simpa only [Batch.roots_eq] using hsame
  · simpa only [Batch.roots_eq] using hstored

/-- All the writes of one kind. -/
lemma makes_phase {bs : List Batch}
    (hbs : ∀ op, ∀ x ∈ bs.flatMap (Batch.roots op), (u.store? x.1.name).isSome) :
    u.Makes tx (bs.mapM (u.applyBatch tx (op.phase, op)))
      (u.Phased op (fun op bs => bs.flatMap (Batch.roots op)) bs)
      (u.StopsAll ((bs.flatMap (Batch.roots op)).map (op, ·))) :=
  makes_mapM fun b hb => makes_applyBatch fun op x hx =>
    hbs op x (List.mem_flatMap.mpr ⟨b, hb, hx⟩)

/-- Every buffered entity has a store. -/
lemma isSome_store?_of_roots :
    ∀ op, ∀ x ∈ u.batches.flatMap (Batch.roots op), (u.store? x.1.name).isSome := by
  intro op x hx
  obtain ⟨b, hb, hx⟩ := List.mem_flatMap.mp hx
  obtain ⟨q, -, rfl⟩ := List.mem_map.mp hx
  obtain ⟨s, hs⟩ := (takesPart_of_batch hb).registered
  exact Option.isSome_iff_exists.mpr ⟨s, hs⟩

/-- A commit makes all writes of its plan, or the first of them up to a step that fails. -/
lemma makes_applyAll (u : UnitOfWork) (tx : Transaction) :
    u.Makes tx (u.applyAll tx u.batches) (fun xs bs => u.BeginsAll u.plan xs (some (Batch.plan bs)))
      (u.StopsAll u.plan) := by
  have hphases : Phase.schedule =
      [(Operation.insert.phase, .insert), (Operation.update.phase, .update),
        (Operation.delete.phase, .delete)] := rfl
  rw [applyAll, hphases, ← plan_batches, Batch.plan_eq]
  refine (makes_phase isSome_store?_of_roots).bind (fun xs failed h hstops => hstops.append _)
    fun xs bs₁ h₁ => ?_
  obtain ⟨hbegins₁, hsame₁, hstored₁⟩ := h₁
  -- A phase finds its own entities as they were buffered, and leaves those of the others alone.
  have hupdate : bs₁.flatMap (Batch.roots .update) = u.batches.flatMap (Batch.roots .update) :=
    hsame₁ .update (by decide)
  rw [← hupdate]
  refine (makes_phase hstored₁).bind
    (fun ys failed h hstops => hbegins₁.stops (hstops.append _)) fun ys bs₂ h₂ => ?_
  obtain ⟨hbegins₂, hsame₂, hstored₂⟩ := h₂
  have hdelete : bs₂.flatMap (Batch.roots .delete) = u.batches.flatMap (Batch.roots .delete) :=
    (hsame₂ .delete (by decide)).trans (hsame₁ .delete (by decide))
  rw [← hdelete]
  refine (makes_phase hstored₂).bind
    (fun zs failed h hstops => hbegins₁.stops (hbegins₂.stops hstops)) fun zs bs₃ h₃ => .pure ?_
  obtain ⟨hbegins₃, hsame₃, -⟩ := h₃
  have hinserted : bs₃.flatMap (Batch.roots .insert) = bs₁.flatMap (Batch.roots .insert) :=
    (hsame₃ .insert (by decide)).trans (hsame₂ .insert (by decide))
  have hupdated : bs₃.flatMap (Batch.roots .update) = bs₂.flatMap (Batch.roots .update) :=
    hsame₃ .update (by decide)
  rw [List.append_nil, Batch.plan_eq, hinserted, hupdated]
  exact hbegins₁.append (hbegins₂.append hbegins₃)

end UnitOfWork

end EntityStore
