import EntityStore.Proofs.Coverage
import EntityStore.Proofs.Interleaving
import EntityStore.Proofs.Rehydration
import EntityStore.Proofs.Shape

/-!
Registering a type once more. Its store gives up its place, and the relations stay; mapped again
they are listed twice. A search in memory does not tell the difference, nor does a commit of
entities that have no children under them; where there are children each is written once for each
mapping.
-/

namespace EntityStore

open Fallible

namespace Fallible

variable {σ ε α β : Type}

/-- What goes on in the same way from every result that can come is the same. -/
lemma bind_congr_of_ok {x : Fallible σ ε α} {f g : α → Fallible σ ε β}
    (h : ∀ s a t, x s = (.ok a, t) → f a = g a) : x >>= f = x >>= g := by
  funext s
  rw [bind_apply, bind_apply]
  rcases hx : x s with ⟨e | a, t⟩
  · rfl
  · exact congrFun (h s a t hx) t

lemma mapM_congr_of_mem {f g : α → Fallible σ ε β} {as : List α} (h : ∀ a ∈ as, f a = g a) :
    as.mapM f = as.mapM g := by
  induction as with
  | nil => rfl
  | cons a as ih =>
    rw [List.mapM_cons, List.mapM_cons, h a (by simp), ih fun b hb => h b (by simp [hb])]

end Fallible

/-! ### Relations listed again -/

/-- In an entity of the named type and in all that hangs below it, nothing hangs under the relations
that are listed again. -/
inductive Childless (relations again : List Relation) : String → Entity → Prop
  | mk {name : String} {e : Entity}
    (own : ∀ r ∈ again, r.parent.name = name → e.collection r.navigation = [])
    (children : ∀ r ∈ relations, r.parent.name = name → ∀ c ∈ e.collection r.navigation,
      Childless relations again r.child.name c) : Childless relations again name e

namespace Childless

variable {relations again : List Relation} {name : String} {e e' : Entity}

lemma own (h : Childless relations again name e) :
    ∀ r ∈ again, r.parent.name = name → e.collection r.navigation = [] := by
  cases h
  assumption

lemma children (h : Childless relations again name e) : ∀ r ∈ relations, r.parent.name = name →
    ∀ c ∈ e.collection r.navigation, Childless relations again r.child.name c := by
  cases h
  assumption

/-- This can be told from the shape. -/
lemma congr (h : Childless relations again name e) (hs : e'.shape = e.shape) :
    Childless relations again name e' := by
  induction h generalizing e' with
  | @mk name e own children ih =>
    have hshape := Entity.shape_eq_iff.mp hs
    refine .mk (fun r hr hname => ?_) fun r hr hname c' hc' => ?_
    · have hnone := hshape r.navigation
      rw [own r hr hname] at hnone
      exact List.forall₂_nil_right_iff.mp hnone
    · obtain ⟨c, hc, hcs⟩ := exists_mem_of_forall₂ (hshape r.navigation).flip hc'
      exact ih r hr hname c hc hcs

/-- Where no relations are listed again there is nothing to ask for. -/
lemma nothing (relations : List Relation) (name : String) (e : Entity) :
    Childless relations [] name e := by
  induction hn : e.height using Nat.strong_induction_on generalizing name e with
  | h n ih =>
    subst hn
    exact .mk (by simp) fun r _ _ c hc => ih _ (Entity.height_lt_of_mem_collection hc) _ c rfl

end Childless

/-- The relations of a unit of work whose parents are of the named type. -/
def UnitOfWork.relationsUnder (u : UnitOfWork) (name : String) : List Relation :=
  u.relations.filter (·.parent.name = name)

/-- The second unit of work has the stores of the first, and its relations, with none or those of
one type listed again. -/
structure Again (again : List Relation) (u v : UnitOfWork) : Prop where
  stores : v.stores = u.stores
  relations : v.relations = u.relations ++ again
  listed : again = [] ∨ ∃ name, again = u.relationsUnder name

namespace Again

variable {again : List Relation} {u v : UnitOfWork} {tx : Transaction}

/-- The relations of a type stand as they were, or are those listed again. -/
lemma relationsUnder (h : Again again u v) (name : String) :
    v.relationsUnder name = u.relationsUnder name ∨ again = u.relationsUnder name ∧
      v.relationsUnder name = u.relationsUnder name ++ u.relationsUnder name := by
  have happend : v.relationsUnder name =
      u.relationsUnder name ++ again.filter (·.parent.name = name) := by
    rw [UnitOfWork.relationsUnder, UnitOfWork.relationsUnder, h.relations, List.filter_append]
  rcases h.listed with rfl | ⟨other, rfl⟩
  · left
    rw [happend, List.filter_nil, List.append_nil]
  · by_cases hname : other = name
    · subst hname
      have hfilter : (u.relationsUnder other).filter (·.parent.name = other) =
          u.relationsUnder other := by
        rw [UnitOfWork.relationsUnder, List.filter_filter]
        simp
      rw [happend, hfilter]
      exact .inr ⟨rfl, rfl⟩
    · left
      have hnone : (u.relationsUnder other).filter (·.parent.name = name) = [] := by
        refine List.filter_eq_nil_iff.mpr fun r hr => ?_
        have hparent : r.parent.name = other := by simpa using List.of_mem_filter hr
        simpa [hparent] using hname
      rw [happend, hnone, List.append_nil]

lemma relationsOf (h : Again again u v) (T : EntityType) : v.relationsOf T = u.relationsOf T ∨
    again = u.relationsOf T ∧ v.relationsOf T = u.relationsOf T ++ u.relationsOf T :=
  h.relationsUnder T.name

lemma store? (h : Again again u v) : v.store? = u.store? := by
  funext name
  rw [UnitOfWork.store?, UnitOfWork.store?, h.stores]

lemma store (h : Again again u v) : v.store = u.store := by
  funext T
  rw [UnitOfWork.store, UnitOfWork.store, h.store?]

lemma write (h : Again again u v) : v.write tx = u.write tx := by
  funext phase op T e
  rw [UnitOfWork.write, UnitOfWork.write, h.store]

/-! ### Writes -/

section Below

variable {levels : Nat} {below below' : Phase → EntityType → Entity → Committing Entity}
  {op : Operation} {T : EntityType} {r : Relation} {rs : List Relation} {e c : Entity}

/-- Below entities of limited height that have no children under the relations listed again the two
do the same. -/
def SameBelow (again : List Relation) (u : UnitOfWork) (levels : Nat)
    (below' below : Phase → EntityType → Entity → Committing Entity) : Prop :=
  ∀ op T e, e.height ≤ levels → Childless u.relations again T.name e →
    below' (Operation.phase op) T e = below op.phase T e

lemma writeChild (h : Again again u v) (hb : SameBelow again u levels below' below)
    (hh : c.height ≤ levels) (hc : Childless u.relations again r.child.name c) {s : Schema}
    {value : Value} : v.writeChild tx below' op.phase r s value c =
      u.writeChild tx below op.phase r s value c := by
  have hsame : ∀ op c', c'.children = c.children →
      below' (Operation.phase op) r.child c' = below op.phase r.child c' := fun op c' hc' =>
    hb op r.child c' (Entity.height_congr hc' ▸ hh) (hc.congr (Entity.shape_congr hc'))
  have hassigned : ∀ p c' p', Committing.ofExcept r.child.name op.phase
      (r.child.assign c r.join.childField value) p = (.ok c', p') → c'.children = c.children := by
    intro p c' p' ha
    obtain ⟨hassign, -⟩ := Committing.ofExcept_eq_ok ha
    obtain ⟨_, -, rfl⟩ := Declarations.assign_eq_ok hassign
    rfl
  have hwritten : ∀ phase op c₁, c₁.children = c.children → ∀ p c' p',
      u.write tx phase op r.child c₁ p = (.ok c', p') → c'.children = c.children := by
    intro phase op c₁ hc₁ p c' p' hw
    obtain ⟨s, -, hleaves, -⟩ := UnitOfWork.write_ok hw
    exact hleaves.children.trans hc₁
  cases op with
  | insert =>
    simp only [UnitOfWork.writeChild, Operation.phase, h.write]
    refine bind_congr_of_ok fun p c₁ p₁ ha => bind_congr_of_ok fun p c₂ p₂ hw => ?_
    exact hsame .insert c₂ (hwritten _ _ c₁ (hassigned _ _ _ ha) _ _ _ hw)
  | update =>
    simp only [UnitOfWork.writeChild, Operation.phase, h.write]
    refine bind_congr_of_ok fun p c₁ p₁ ha => ?_
    split
    · refine bind_congr_of_ok fun p c₂ p₂ hw => ?_
      exact hsame .insert c₂ (hwritten _ _ c₁ (hassigned _ _ _ ha) _ _ _ hw)
    · refine bind_congr_of_ok fun p c₂ p₂ hw => ?_
      exact hsame .update c₂ (hwritten _ _ c₁ (hassigned _ _ _ ha) _ _ _ hw)
  | delete =>
    simp only [UnitOfWork.writeChild, Operation.phase, h.write]
    rw [show below' .delete r.child c = below .delete r.child c from hsame .delete c rfl]

lemma writeChildren (h : Again again u v) (hb : SameBelow again u levels below' below)
    (hh : ∀ c ∈ e.collection r.navigation, c.height ≤ levels)
    (hc : ∀ c ∈ e.collection r.navigation, Childless u.relations again r.child.name c) :
    v.writeChildren tx below' op.phase e r = u.writeChildren tx below op.phase e r := by
  unfold UnitOfWork.writeChildren
  rw [h.store]
  dsimp only
  split
  · rfl
  · refine bind_congr_of_ok fun p value p₁ _ => bind_congr_of_ok fun p s p₂ _ => ?_
    rw [mapM_congr_of_mem fun c hmem => h.writeChild hb (hh c hmem) (hc c hmem)]

/-- Relations one after another. What one has written has the shape of what there was. -/
lemma foldlM_writeChildren (h : Again again u v) (hb : SameBelow again u levels below' below)
    (hpass : u.PassesBelow levels below) (hh : e.height ≤ levels + 1)
    (hc : Childless u.relations again T.name e) (hrs : ∀ r ∈ rs, r ∈ u.relationsOf T) :
    rs.foldlM (v.writeChildren tx below' op.phase) e =
      rs.foldlM (u.writeChildren tx below op.phase) e := by
  induction rs generalizing e with
  | nil => rw [List.foldlM_nil, List.foldlM_nil]
  | cons r rs ih =>
    obtain ⟨hr, hparent⟩ := UnitOfWork.mem_relationsOf.mp (hrs r (by simp))
    have hlevels : ∀ c ∈ e.collection r.navigation, c.height ≤ levels := by
      intro c hmem
      have := Entity.height_lt_of_mem_collection hmem
      omega
    rw [List.foldlM_cons, List.foldlM_cons, h.writeChildren hb hlevels (hc.children r hr hparent)]
    refine bind_congr_of_ok fun p e₁ p₁ hw => ?_
    have hpassed := UnitOfWork.writeChildren_passed hpass hh hw
    exact ih hpassed.height (hc.congr hpassed.shape) fun q hq => hrs q (by simp [hq])

end Below

lemma foldlM_writeChildren_none {below : Phase → EntityType → Entity → Committing Entity}
    {phase : Phase} {rs : List Relation} {e : Entity}
    (h : ∀ r ∈ rs, e.collection r.navigation = []) :
    rs.foldlM (u.writeChildren tx below phase) e = pure e := by
  induction rs with
  | nil => rfl
  | cons r rs ih =>
    have hnone : u.writeChildren tx below phase e r = pure e := by
      unfold UnitOfWork.writeChildren
      rw [h r (by simp)]
      rfl
    rw [List.foldlM_cons, hnone, pure_bind]
    exact ih fun q hq => h q (by simp [hq])

lemma cascadeWithin (h : Again again u v) (levels : Nat) :
    SameBelow again u levels (v.cascadeWithin tx levels) (u.cascadeWithin tx levels) := by
  induction levels with
  | zero => exact fun op T e _ _ => rfl
  | succ levels ih =>
    intro op T e hh hc
    rw [UnitOfWork.cascadeWithin, UnitOfWork.cascadeWithin]
    rcases h.relationsOf T with hsame | ⟨hagain, htwice⟩
    · rw [hsame]
      exact h.foldlM_writeChildren ih (UnitOfWork.passesBelow_cascadeWithin levels) hh hc
        fun _ hr => hr
    · -- All relations of this type are listed again, so that there is nothing to write under any.
      have hnone : ∀ r ∈ u.relationsOf T, e.collection r.navigation = [] := fun r hr =>
        hc.own r (hagain ▸ hr) (UnitOfWork.mem_relationsOf.mp hr).2
      rw [htwice, foldlM_writeChildren_none hnone, foldlM_writeChildren_none fun r hr =>
        hnone r ((List.mem_append.mp hr).elim id id)]

lemma writeTree (h : Again again u v) {op : Operation} {T : EntityType} {e : Entity}
    (hc : Childless u.relations again T.name e) :
    v.writeTree tx op.phase op T e = u.writeTree tx op.phase op T e := by
  have hcascade : ∀ e', e'.children = e.children →
      v.cascade tx op.phase T e' = u.cascade tx op.phase T e' := fun e' he' =>
    h.cascadeWithin e'.height op T e' (Nat.le_refl _) (hc.congr (Entity.shape_congr he'))
  have hwritten : ∀ p e' p', u.write tx op.phase op T e p = (.ok e', p') →
      e'.children = e.children := by
    intro p e' p' hw
    obtain ⟨s, -, hleaves, -⟩ := UnitOfWork.write_ok hw
    exact hleaves.children
  cases op with
  | delete =>
    simp only [UnitOfWork.writeTree, h.write]
    rw [hcascade e rfl]
  | insert =>
    simp only [UnitOfWork.writeTree, h.write]
    exact bind_congr_of_ok fun p e' p' hw => hcascade e' (hwritten p e' p' hw)
  | update =>
    simp only [UnitOfWork.writeTree, h.write]
    exact bind_congr_of_ok fun p e' p' hw => hcascade e' (hwritten p e' p' hw)

/-! ### Commits -/

/-- The buffered entities of a batch have no children under the relations listed again. -/
def OfBatch (relations again : List Relation) (b : Batch) : Prop :=
  ∀ q ∈ b.pending, Childless relations again b.type.name q.entity

lemma ofBatch_of_keeps {relations : List Relation} {bs bs' : List Batch}
    (h : List.Forall₂ (fun b' b => Batch.Keeps b b') bs' bs)
    (hbs : ∀ b ∈ bs, OfBatch relations again b) : ∀ b ∈ bs', OfBatch relations again b := by
  intro b' hb' q' hq'
  obtain ⟨b, hb, hkeeps⟩ := exists_mem_of_forall₂ h.flip hb'
  obtain ⟨q, hq, -, hshape⟩ := exists_mem_of_forall₂ hkeeps.pending.flip hq'
  rw [hkeeps.type]
  exact (hbs b hb q hq).congr hshape

lemma mapM_applyBatch (h : Again again u v) (op : Operation) {bs : List Batch}
    (hbs : ∀ b ∈ bs, OfBatch u.relations again b) :
    bs.mapM (v.applyBatch tx (op.phase, op)) = bs.mapM (u.applyBatch tx (op.phase, op)) := by
  refine mapM_congr_of_mem fun b hb => ?_
  rw [UnitOfWork.applyBatch, UnitOfWork.applyBatch]
  refine congrArg (· >>= _) (mapM_congr_of_mem fun q hq => ?_)
  rw [h.writeTree (hbs b hb q hq)]

lemma applyAll (h : Again again u v) {bs : List Batch}
    (hbs : ∀ b ∈ bs, OfBatch u.relations again b) : v.applyAll tx bs = u.applyAll tx bs := by
  have hphases : Phase.schedule =
      [(Operation.insert.phase, .insert), (Operation.update.phase, .update),
        (Operation.delete.phase, .delete)] := rfl
  rw [UnitOfWork.applyAll, UnitOfWork.applyAll, hphases]
  simp only [List.foldlM_cons, List.foldlM_nil]
  rw [h.mapM_applyBatch .insert hbs]
  -- A phase leaves the shapes of what is buffered as they are, and so what the next one needs.
  refine bind_congr_of_ok fun p bs₁ p₁ h₁ => ?_
  have hbs₁ := ofBatch_of_keeps (UnitOfWork.mapM_applyBatch_passed h₁).1 hbs
  rw [h.mapM_applyBatch .update hbs₁]
  refine bind_congr_of_ok fun p bs₂ p₂ h₂ => ?_
  have hbs₂ := ofBatch_of_keeps (UnitOfWork.mapM_applyBatch_passed h₂).1 hbs₁
  rw [h.mapM_applyBatch .delete hbs₂]

end Again

/-- Relations whose children are all listed add nothing to the list. -/
lemma UnitOfWork.foldl_reachStep_listed {u : UnitOfWork} {listed found : List String}
    {rs : List Relation} (h : ∀ r ∈ rs, (u.store? r.child.name).isSome →
      r.child.name ∈ listed ++ found) : rs.foldl (u.reachStep listed) found = found := by
  induction rs with
  | nil => rfl
  | cons r rs ih =>
    have hstep : u.reachStep listed found r = found := by
      unfold reachStep
      rw [if_neg]
      intro hnew
      rw [Bool.and_eq_true] at hnew
      have hmem := List.contains_iff_mem.mpr (h r (by simp) hnew.1)
      rw [hmem] at hnew
      exact Bool.false_ne_true hnew.2
    rw [List.foldl_cons, hstep]
    exact ih fun q hq => h q (by simp [hq])

namespace Again

variable {again : List Relation} {u v : UnitOfWork}

/-- A second time round the children of a type are listed already. -/
lemma participants (h : Again again u v) : v.participants = u.participants := by
  have hreached : v.newlyReached = u.newlyReached := by
    funext listed name
    have hstep : v.reachStep listed = u.reachStep listed := by
      funext found r
      rw [UnitOfWork.reachStep, UnitOfWork.reachStep, h.store?]
    change (v.relationsUnder name).foldl (v.reachStep listed) [] =
      (u.relationsUnder name).foldl (u.reachStep listed) []
    rw [hstep]
    rcases h.relationsUnder name with hsame | ⟨-, htwice⟩
    · rw [hsame]
    · rw [htwice, List.foldl_append]
      refine UnitOfWork.foldl_reachStep_listed fun r hr hs => ?_
      exact UnitOfWork.mem_foldl_reachStep _ _ |>.mpr (.inr ⟨r, hr, rfl, hs⟩)
  have hfrom : v.reachFrom = u.reachFrom := by
    funext listed place
    rw [UnitOfWork.reachFrom, UnitOfWork.reachFrom, hreached]
  funext types
  rw [UnitOfWork.participants, UnitOfWork.participants, hfrom, h.stores]

lemma openFor (h : Again again u v) : v.openFor = u.openFor := by
  funext types
  rw [UnitOfWork.openFor, UnitOfWork.openFor, h.participants, UnitOfWork.sharedBackend,
    UnitOfWork.sharedBackend, h.store?]

/-- Entities that have no children under the relations listed again are committed as before. -/
lemma commit (h : Again again u v)
    (hc : ∀ s ∈ u.stores, ∀ q ∈ s.pending, Childless u.relations again s.type.name q.entity) :
    v.commit.1 = u.commit.1 := by
  have hbatches : v.batches = u.batches := by rw [UnitOfWork.batches, UnitOfWork.batches, h.stores]
  have hbs : ∀ b ∈ u.batches, OfBatch u.relations again b := by
    intro b hb q hq
    obtain ⟨s, hs, rfl⟩ := List.mem_map.mp hb
    exact hc s (List.mem_of_mem_filter hs) q hq
  have hcommit : ∀ tx first, v.commitBatches tx first u.batches =
      u.commitBatches tx first u.batches := by
    intro tx first
    funext w
    rw [UnitOfWork.commitBatches, UnitOfWork.commitBatches, UnitOfWork.applyAndCommit,
      UnitOfWork.applyAndCommit, h.applyAll hbs]
  simp only [UnitOfWork.commit, UnitOfWork.commitBuffered, hbatches, h.openFor]
  generalize u.batches = bs at hcommit
  rcases bs with _ | ⟨b, bs⟩
  · rfl
  · simp only [hcommit]

end Again

/-! ### Runs -/

/-- What can be asked of a unit of work once it is set up. -/
inductive Use where
  | record (c : Recording)
  | commit
  | find (T : EntityType) (p : Expr)
  | findSingle (T : EntityType) (p : Expr)

/-- What comes of it. -/
inductive Use.Answer where
  | recorded (result : Except Error Unit)
  | committed (result : Except Error Committed)
  | found (result : Except Stop (List Entity))
  | foundSingle (result : Except Stop Entity)

/-- Whether something is searched for. -/
def Use.searches : Use → Bool
  | .record _ => false
  | .commit => false
  | .find .. => true
  | .findSingle .. => true

/-- What is recorded has no children under the relations listed again. -/
def Use.Childless (relations again : List Relation) : Use → Prop
  | .record c => EntityStore.Childless relations again c.type.name c.entity
  | _ => True

namespace UnitOfWork

/-- Nothing that is buffered has children under the relations listed again. -/
def BuffersChildless (u : UnitOfWork) (again : List Relation) : Prop :=
  ∀ s ∈ u.stores, ∀ q ∈ s.pending, Childless u.relations again s.type.name q.entity

/-- The answer to one use, and what the unit of work and the world are afterwards. -/
def use (u : UnitOfWork) (w : World) : Use → Use.Answer × UnitOfWork × World
  | .record c => (.recorded ((u.buffer c.op c.type c.entity).map fun _ => ()), u.record c, w)
  | .commit => (.committed (u.commit.1 w).1, u.commit.2, (u.commit.1 w).2)
  | .find T p => (.found (u.find T p w).1, u, (u.find T p w).2)
  | .findSingle T p => (.foundSingle (u.findSingle T p w).1, u, (u.findSingle T p w).2)

/-- The answers to uses one after another, and the world that they leave. -/
def useAll (u : UnitOfWork) (w : World) : List Use → List Use.Answer × World
  | [] => ([], w)
  | x :: xs =>
    let (answer, u', w') := u.use w x
    let (answers, w'') := u'.useAll w' xs
    (answer :: answers, w'')

end UnitOfWork

namespace Again

variable {again : List Relation} {u v : UnitOfWork}

lemma hydrate (h : Again again u v) (hm : again = [] ∨ u.InMemory) (depth : Nat) :
    v.hydrate depth = u.hydrate depth := by
  refine UnitOfWork.hydrate_twice h.stores (fun T => ?_) depth
  rcases h.relationsOf T with hsame | ⟨hagain, htwice⟩
  · exact .inl hsame
  · rcases hm with rfl | hm
    · left
      rw [htwice, ← hagain]
      rfl
    · exact .inr ⟨hm, htwice⟩

lemma find (h : Again again u v) (hm : again = [] ∨ u.InMemory) : v.find = u.find := by
  funext T p
  rw [UnitOfWork.find, UnitOfWork.find]
  refine congrArg (get >>= ·) (funext fun w => ?_)
  rw [UnitOfWork.findWithin, UnitOfWork.findWithin, h.store, h.hydrate hm]

lemma findSingle (h : Again again u v) (hm : again = [] ∨ u.InMemory) :
    v.findSingle = u.findSingle := by
  funext T p
  rw [UnitOfWork.findSingle, UnitOfWork.findSingle]
  refine congrArg (get >>= ·) (funext fun w => ?_)
  rw [UnitOfWork.findSingleWithin, UnitOfWork.findSingleWithin, h.store, h.hydrate hm]

/-- To change the stores in both alike. -/
lemma mapStores (h : Again again u v) (f : DataStore → DataStore) :
    Again again { u with stores := u.stores.map f } { v with stores := v.stores.map f } :=
  ⟨congrArg (List.map f) h.stores, h.relations, h.listed⟩

/-- One use: the answers are the same, and so are the worlds. -/
lemma use (h : Again again u v) (hp : u.BuffersChildless again) {x : Use}
    (hx : x.Childless u.relations again) (hm : x.searches → again = [] ∨ u.InMemory) (w : World) :
    (v.use w x).1 = (u.use w x).1 ∧ (v.use w x).2.2 = (u.use w x).2.2 ∧
      Again again (u.use w x).2.1 (v.use w x).2.1 ∧ (u.use w x).2.1.BuffersChildless again ∧
      (u.use w x).2.1.relations = u.relations ∧
      (u.InMemory → (u.use w x).2.1.InMemory) := by
  cases x with
  | record c =>
    have hresult : (v.buffer c.op c.type c.entity).map (fun _ => ()) =
        (u.buffer c.op c.type c.entity).map fun _ => () := by
      unfold UnitOfWork.buffer UnitOfWork.modifyStore
      rw [h.store]
      rcases u.store c.type with e | s <;> rfl
    simp only [UnitOfWork.use, hresult, UnitOfWork.record_eq]
    refine ⟨trivial, trivial, h.mapStores _, fun t ht q hq => ?_, trivial, fun hmem t ht => ?_⟩
    · obtain ⟨t, hmem, rfl⟩ := List.mem_map.mp ht
      rcases List.mem_append.mp hq with hq | hq
      · exact hp t hmem q hq
      · obtain ⟨c', hc', rfl⟩ := List.mem_map.mp hq
        obtain ⟨hc', hname⟩ := List.mem_filter.mp hc'
        obtain rfl := List.mem_singleton.mp hc'
        have hname : c'.type.name = t.type.name := by simpa using hname
        exact hname ▸ hx
    · obtain ⟨t, ht', rfl⟩ := List.mem_map.mp ht
      exact hmem t ht'
  | commit =>
    simp only [UnitOfWork.use, h.commit hp]
    refine ⟨trivial, trivial, h.mapStores _, fun t ht q hq => ?_, rfl, fun hmem t ht => ?_⟩
    · obtain ⟨t, -, rfl⟩ := List.mem_map.mp ht
      cases hq
    · obtain ⟨t₀, ht₀, rfl⟩ := List.mem_map.mp ht
      exact hmem t₀ ht₀
  | find T p =>
    simp only [UnitOfWork.use, h.find (hm rfl)]
    exact ⟨trivial, trivial, h, hp, trivial, id⟩
  | findSingle T p =>
    simp only [UnitOfWork.use, h.findSingle (hm rfl)]
    exact ⟨trivial, trivial, h, hp, trivial, id⟩

/-- All uses, one after another. -/
lemma useAll (h : Again again u v) (hp : u.BuffersChildless again) {xs : List Use}
    (hxs : ∀ x ∈ xs, x.Childless u.relations again)
    (hm : ∀ x ∈ xs, x.searches → again = [] ∨ u.InMemory) (w : World) :
    v.useAll w xs = u.useAll w xs := by
  induction xs generalizing u v w with
  | nil => rfl
  | cons x xs ih =>
    obtain ⟨hanswer, hworld, hagain, hpending, hrelations, hmemory⟩ :=
      h.use hp (hxs x (by simp)) (hm x (by simp)) w
    have hrest := ih hagain hpending (fun y hy => hrelations ▸ hxs y (by simp [hy]))
      (fun y hy hsearch => (hm y (by simp [hy]) hsearch).imp_right hmemory) (u.use w x).2.2
    rw [UnitOfWork.useAll, UnitOfWork.useAll]
    simp only [hanswer, hworld, hrest]

end Again

/-! ### Registering again -/

namespace UnitOfWork

/-- The unit of work without what is buffered for a type. -/
def discard (u : UnitOfWork) (T : EntityType) : UnitOfWork :=
  { u with stores := u.stores.map fun s => if s.type.name = T.name then s.clear else s }

variable {u : UnitOfWork} {s : DataStore}

/-- Mapped relations join declared fields. -/
lemma Built.declares (h : u.Built) : ∀ r ∈ u.relations,
    r.parent.declares r.join.parentField ∧ r.child.declares r.join.childField := by
  have hrelate : ∀ {u u' : UnitOfWork} {r : Relation}, (∀ q ∈ u.relations,
      q.parent.declares q.join.parentField ∧ q.child.declares q.join.childField) →
      u.relate r = .ok u' → ∀ q ∈ u'.relations,
        q.parent.declares q.join.parentField ∧ q.child.declares q.join.childField := by
    intro u u' r ih hr q hq
    unfold UnitOfWork.relate at hr
    split at hr
    · cases hr
    · rename_i hparent
      split at hr
      · cases hr
      · rename_i hchild
        cases hr
        rcases List.mem_append.mp hq with hq | hq
        · exact ih q hq
        · obtain rfl := List.mem_singleton.mp hq
          exact ⟨by simpa using hparent, by simpa using hchild⟩
  induction h with
  | empty => simp
  | register h s ih => exact ih
  | relate h hr ih => exact hrelate ih hr
  | map h hr ih =>
    unfold UnitOfWork.map at hr
    split at hr
    · exact hrelate ih hr
    · cases hr
  | buffer h hb ih =>
    obtain ⟨_, -, hb⟩ := except_bind_eq_ok.mp hb
    cases hb
    exact ih
  | clear h ih => exact ih

/-- Relations of the type registered last are mapped one after another. -/
lemma foldlM_map {rs : List Relation} {name : String} (hlast : u.last = some name)
    (h : ∀ r ∈ rs, r.parent.name = name ∧ r.parent.declares r.join.parentField ∧
      r.child.declares r.join.childField) :
    rs.foldlM map u = .ok { u with relations := u.relations ++ rs } := by
  induction rs generalizing u with
  | nil =>
    rw [List.append_nil]
    rfl
  | cons r rs ih =>
    obtain ⟨hname, hparent, hchild⟩ := h r (by simp)
    have hmap : u.map r = .ok { u with relations := u.relations ++ [r] } := by
      simp [map, relate, hlast, hname, hparent, hchild]
    have hrest := ih (u := { u with relations := u.relations ++ [r] }) hlast
      fun q hq => h q (by simp [hq])
    rw [List.foldlM_cons, hmap]
    refine hrest.trans ?_
    rw [List.append_assoc]
    rfl

lemma register_eq (hd : (u.stores.map (·.type.name)).Nodup) (hs : s ∈ u.stores) :
    u.register ⟨s.adapter, []⟩ = { u.discard s.type with last := some s.type.name } := by
  have hsome : (u.store? s.type.name).isSome := by rw [store?_of_mem hd hs]; rfl
  have hstores : (u.stores.map fun t => if t.type.name = s.type.name then ⟨s.adapter, []⟩ else t) =
      u.stores.map fun t => if t.type.name = s.type.name then t.clear else t := by
    refine List.map_congr_left fun t ht => ?_
    by_cases hname : t.type.name = s.type.name
    · rw [if_pos hname, if_pos hname, List.inj_on_of_nodup_map hd ht hs hname]
      rfl
    · rw [if_neg hname, if_neg hname]
  have htype : (⟨s.adapter, []⟩ : DataStore).type = s.type := rfl
  rw [register, htype, if_pos hsome, hstores]
  rfl

lemma clear_discard (u : UnitOfWork) (T : EntityType) : (u.discard T).clear = u.clear := by
  rw [clear, clear, discard, List.map_map]
  refine congrArg (fun stores => { u with stores }) (List.map_congr_left fun s _ => ?_)
  rw [Function.comp_apply]
  split <;> rfl

lemma InMemory.discard (hm : u.InMemory) (T : EntityType) : (u.discard T).InMemory := by
  intro t ht
  obtain ⟨t, ht', rfl⟩ := List.mem_map.mp ht
  split
  · exact hm t ht'
  · exact hm t ht'

/-- With the relations of a type listed twice there are twice as many for this type alone. -/
lemma relationsOf_twice {x : UnitOfWork} {S : EntityType}
    (h : x.relations = u.relations ++ u.relationsOf S) (T : EntityType) :
    x.relationsOf T = u.relationsOf T ++ if T.name = S.name then u.relationsOf T else [] := by
  have happend : x.relationsOf T =
      u.relationsOf T ++ (u.relationsOf S).filter (·.parent.name = T.name) := by
    rw [relationsOf, relationsOf, h, List.filter_append]
  rw [happend, relationsOf, relationsOf, List.filter_filter]
  split
  · rename_i hname
    simp [hname]
  · rename_i hname
    refine congrArg (_ ++ ·) (List.filter_eq_nil_iff.mpr fun r _ hr => hname ?_)
    simp only [Bool.and_eq_true, decide_eq_true_eq] at hr
    exact hr.1.symm.trans hr.2

/-- **Registering again.** Over the same adapter a type that is registered a second time behaves as
before, with nothing buffered for it. With its relations mapped again it does so in memory as far as
no children hang under them in what is buffered, and over databases as far as there is no search
either; and whatever is buffered, a commit that goes through has visited the children under the
relations of the type once for each mapping. -/
theorem register_again (hu : u.Built) (hs : s ∈ u.stores) :
    (∀ xs w, (u.register ⟨s.adapter, []⟩).useAll w xs = (u.discard s.type).useAll w xs) ∧
    ∃ v, (u.relationsOf s.type).foldlM map (u.register ⟨s.adapter, []⟩) = .ok v ∧
      (u.InMemory → ∀ T p w,
        v.find T p w = u.find T p w ∧ v.findSingle T p w = u.findSingle T p w) ∧
      (∀ xs w, (u.discard s.type).BuffersChildless (u.relationsOf s.type) →
        (∀ x ∈ xs, x.Childless u.relations (u.relationsOf s.type)) →
        (u.InMemory ∨ ∀ x ∈ xs, x.searches = false) →
        v.useAll w xs = (u.discard s.type).useAll w xs) ∧
      ∀ x : UnitOfWork, x.relations = v.relations →
        (∀ w c w', x.commit.1 w = (.ok c, w') → ∃ ws, w'.writes = w.writes ++ ws ∧
          c.applied = ws.length ∧
          ws.map Write.type = x.plan.flatMap fun y => x.itinerary y.1.ascends y.2.1 y.2.2) ∧
        ∀ up T e, x.itineraryAlong up (x.relationsOf T) e =
          x.itineraryAlong up (u.relationsOf T) e ++
            if T.name = s.type.name then x.itineraryAlong up (u.relationsOf T) e else [] := by
  have hregister := register_eq hu.nodup hs
  have hagain : Again [] (u.discard s.type) (u.register ⟨s.adapter, []⟩) := by
    rw [hregister]
    exact ⟨rfl, (List.append_nil _).symm, .inl rfl⟩
  have hmap : (u.relationsOf s.type).foldlM map (u.register ⟨s.adapter, []⟩) =
      .ok { u.register ⟨s.adapter, []⟩ with relations := u.relations ++ u.relationsOf s.type } :=
    foldlM_map rfl fun r hr => by
      obtain ⟨hr, hname⟩ := mem_relationsOf.mp hr
      exact ⟨hname, hu.declares r hr⟩
  have hmapped : Again (u.relationsOf s.type) (u.discard s.type)
      { u.register ⟨s.adapter, []⟩ with relations := u.relations ++ u.relationsOf s.type } :=
    ⟨hagain.stores, rfl, .inr ⟨s.type.name, rfl⟩⟩
  refine ⟨fun xs w => ?_, _, hmap, fun hm T p w => ⟨?_, ?_⟩, fun xs w hbuffers hxs hm => ?_,
    fun x hx => ⟨fun w c w' h => commit_itinerary h, fun up T e => ?_⟩⟩
  · refine hagain.useAll (fun _ _ _ _ => .nothing _ _ _) (fun x _ => ?_) (fun _ _ _ => .inl rfl) w
    cases x with
    | record c => exact .nothing _ _ _
    | _ => trivial
  · rw [hmapped.find (.inr (hm.discard s.type)), ← find_clear, clear_discard, find_clear]
  · rw [hmapped.findSingle (.inr (hm.discard s.type)), ← findSingle_clear, clear_discard,
      findSingle_clear]
  · refine hmapped.useAll hbuffers hxs (fun x hx hsearch => .inr ?_) w
    rcases hm with hm | hm
    · exact hm.discard s.type
    · rw [hm x hx] at hsearch
      cases hsearch
  · rw [relationsOf_twice hx]
    split
    · exact List.flatMap_append
    · rw [List.append_nil, List.append_nil]

end UnitOfWork

namespace Census

/-- The registry with nothing buffered. -/
def quiet : UnitOfWork where
  stores := [⟨people, []⟩, ⟨numbers, []⟩]
  relations := [identifications]
  last := some "Identification"

lemma quiet_built : quiet.Built := by
  have hpeople : UnitOfWork.Built { stores := [⟨people, []⟩], last := some "Person" } :=
    UnitOfWork.Built.empty.register ⟨people, []⟩
  have hmapped : UnitOfWork.Built
      { stores := [⟨people, []⟩], relations := [identifications], last := some "Person" } :=
    hpeople.map (r := identifications) rfl
  exact hmapped.register ⟨numbers, []⟩

/-- The registry after people were registered, and their identifications mapped, once more. -/
def doubled : UnitOfWork where
  stores := [⟨people, []⟩, ⟨numbers, []⟩]
  relations := [identifications, identifications]
  last := some "Person"

lemma doubled_mapped : (quiet.relationsOf person.type).foldlM UnitOfWork.map
    (quiet.register ⟨people, []⟩) = .ok doubled := rfl

/-- Searches do not tell the two apart, but a commit of a person counts an identification twice. -/
theorem doubled_registry : quiet.Built ∧ ⟨people, []⟩ ∈ quiet.stores ∧
    (∀ T p w, doubled.find T p w = quiet.find T p w) ∧
    ∀ up e, doubled.itinerary up person.type e = if up then
      doubled.itineraryAlong up [identifications] e ++
        doubled.itineraryAlong up [identifications] e ++ ["Person"]
      else "Person" :: (doubled.itineraryAlong up [identifications] e ++
        doubled.itineraryAlong up [identifications] e) := by
  have hmem : ⟨people, []⟩ ∈ quiet.stores := List.mem_cons_self
  have hmemory : quiet.InMemory := by
    intro s hs
    rcases List.mem_pair.mp hs with rfl | rfl
    · exact ⟨_, rfl⟩
    · exact ⟨_, rfl⟩
  obtain ⟨-, v, hv, hfind, -, hcommit⟩ := UnitOfWork.register_again quiet_built hmem
  obtain rfl : doubled = v := Except.ok.inj (doubled_mapped.symm.trans hv)
  refine ⟨quiet_built, hmem, fun T p w => (hfind hmemory T p w).1, fun up e => ?_⟩
  have halong := (hcommit doubled rfl).2 up person.type e
  rw [UnitOfWork.itinerary_eq, halong]
  rfl

/-- The registry in a database. -/
def distant : UnitOfWork where
  stores := [⟨behind people "registry" .standard, []⟩, ⟨behind numbers "registry" .standard, []⟩]
  relations := [identifications]
  last := some "Identification"

def distantDoubled : UnitOfWork where
  stores := [⟨behind people "registry" .standard, []⟩, ⟨behind numbers "registry" .standard, []⟩]
  relations := [identifications, identifications]
  last := some "Person"

/-- A database that answers with a person, then with an identification, then with nothing. -/
def terse : World where
  backends := [(.connection "registry", .remote { script := [
    { rows := [[("personId", .int 1), ("firstname", .text "Eduard")]] },
    { rows := [[("identificationId", .int 1), ("personId", .int 1),
      ("number", .text "123-456")]] }] })]

/-- The number of identifications found with the first person. -/
def identificationsFound : List Use.Answer → Option Nat
  | .found (.ok (e :: _)) :: _ => some (e.collection "identifications").length
  | _ => none

/-- In the registry that was mapped twice a person is committed with two identifications for one;
and a database is asked for them twice, and answers differently. -/
theorem doubled_unlike :
    (quiet.relationsOf person.type).foldlM UnitOfWork.map (quiet.register ⟨people, []⟩) =
        .ok doubled ∧
      doubled.useAll vacant [.record arrival, .commit] ≠
        (quiet.discard person.type).useAll vacant [.record arrival, .commit] ∧
      (((quiet.discard person.type).useAll vacant [.record arrival, .commit]).2.rows
        "numbers").length = 1 ∧
      ((doubled.useAll vacant [.record arrival, .commit]).2.rows "numbers").length = 2 ∧
    (distant.relationsOf person.type).foldlM UnitOfWork.map (distant.register
        ⟨behind people "registry" .standard, []⟩) =
        .ok distantDoubled ∧
      distantDoubled.useAll terse [.find person.type (.constant (.bool true))] ≠
        (distant.discard person.type).useAll terse
          [.find person.type (.constant (.bool true))] := by
  have honce : (((quiet.discard person.type).useAll vacant [.record arrival, .commit]).2.rows
      "numbers").length = 1 := by decide +kernel
  have htwice : ((doubled.useAll vacant [.record arrival, .commit]).2.rows
      "numbers").length = 2 := by decide +kernel
  have hfound : identificationsFound ((distant.discard person.type).useAll terse
      [.find person.type (.constant (.bool true))]).1 = some 1 := by decide +kernel
  have hlost : identificationsFound (distantDoubled.useAll terse
      [.find person.type (.constant (.bool true))]).1 = some 0 := by decide +kernel
  refine ⟨doubled_mapped, fun h => ?_, honce, htwice, rfl, fun h => ?_⟩
  · rw [← h, htwice] at honce
    cases honce
  · rw [h, hfound] at hlost
    cases hlost

end Census

end EntityStore
