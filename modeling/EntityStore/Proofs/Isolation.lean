import EntityStore.Proofs.Retraction

/-!
Writes inside a transaction and outside of it, on one table in memory and in any order. A creation
is undone where its key is found, but an update and a deletion at the place they remember. So a
rollback finds its own rows, and leaves the others alone, as long as nobody outside takes out a row
from above a place that is still remembered.
-/

namespace EntityStore

open Fallible

/-- The value in the key field of the row that was written. -/
def Undo.key? (T : EntityType) (key : String) : Undo → Option Value
  | .created _ _ v => some v
  | .updated _ before => T.read? before key
  | .deleted _ removed => T.read? removed key

/-- The place from which a row was taken out. -/
def Undo.vacated? : Undo → Option Nat
  | .deleted position _ => some position
  | _ => none

namespace Table

variable {T : EntityType} {s : Schema} {d : Declaration} {key : String} {v : Value}
  {op : Operation} {e row row' : Entity} {rows rows' : List Entity} {u : Undo} {us : List Undo}

/-! ### One write -/

/-- What a write does to the rows, and what undoes it. It adds one at the end, or replaces or takes
out the one at a place; the key of that row is the same before and after. -/
inductive Edit (T : EntityType) (key : String) (v : Value) :
    List Entity → List Entity → Undo → Prop
  | created {rows : List Entity} {row : Entity} (shows : T.read? row key = some v) :
    Edit T key v rows (rows ++ [row]) (.created T key v)
  | updated {before after : List Entity} {row row' : Entity} (shows : T.read? row key = some v)
    (keeps : T.read? row' key = some v) :
    Edit T key v (before ++ row :: after) (before ++ row' :: after) (.updated before.length row)
  | deleted {before after : List Entity} {row : Entity} (shows : T.read? row key = some v) :
    Edit T key v (before ++ row :: after) (before ++ after) (.deleted before.length row)

lemma Edit.key?_eq (h : Edit T key v rows rows' u) : u.key? T key = some v := by
  cases h with
  | created => rfl
  | updated shows => exact shows
  | deleted shows => exact shows

lemma exists_read?_of_hasKey (h : hasKey T key v row = true) : ∃ w, T.read? row key = some w := by
  unfold hasKey at h
  split at h
  · rename_i w hw
    exact ⟨w, hw⟩
  · cases h

/-- To assign other fields leaves the key alone. -/
lemma read?_overwrite {fields : List String} {x : Option Error} (hkey : key ∉ fields)
    (h : overwrite d.type e fields row = (row', x)) :
    d.type.read? row' key = d.type.read? row key := by
  induction fields generalizing row with
  | nil =>
    cases h
    rfl
  | cons f fields ih =>
    obtain ⟨hf, hfields⟩ := not_or.mp (mt List.mem_cons.mpr hkey)
    rw [overwrite] at h
    rcases hstep : d.type.read e f >>= d.type.assign row f with err | row₁
    · rw [hstep] at h
      cases h
      rfl
    · rw [hstep] at h
      obtain ⟨_, -, hassign⟩ := except_bind_eq_ok.mp hstep
      obtain ⟨_, hput, rfl⟩ := Declarations.assign_eq_ok hassign
      obtain ⟨_, _, -, -, rfl⟩ := Declaration.put_eq_ok hput
      rw [ih hfields h]
      exact (Record.lookup_put _ _ _ _).trans (if_neg hf)

/-- The write is an edit of the rows, or leaves them alone. -/
def Outcome.Edits {α : Type} (o : Outcome α) (T : EntityType) (key : String) (rows : List Entity) :
    Prop :=
  (o.undo = none ∧ o.rows = rows) ∨ ∃ v u, o.undo = some u ∧ Edit T key v rows o.rows u

lemma create_edits (T : EntityType) (s : Schema) (e : Entity) (rows : List Entity) :
    (create T s e rows).Edits T s.key rows := by
  unfold create
  rcases hc : creation T s rows e with err | c
  · exact .inl ⟨rfl, rfl⟩
  · obtain ⟨-, -, hkey⟩ := creation_eq_ok hc
    exact .inr ⟨c.key, _, rfl, .created (EntityType.read_eq_ok hkey)⟩

lemma update_edits (hs : s.IsOf d.type) (he : d.Fits e.scalars) :
    (update d.type s e rows).Edits d.type s.key rows := by
  unfold update
  rcases s.keyOf d.type e with err | v
  · exact .inl ⟨rfl, rfl⟩
  rcases hfind : find? d.type s.key v rows with _ | ⟨i, row⟩
  · exact .inl ⟨by simp only [hfind], by simp only [hfind]⟩
  obtain ⟨hkey, before, after, rfl, rfl, -⟩ := find?_eq_some_append hfind
  obtain ⟨w, hw⟩ := exists_read?_of_hasKey hkey
  have hfields : ∀ f ∈ s.persistedWithoutKey, f ∈ d.fields.map Prod.fst :=
    fun f hf => (hs.mem_persistedWithoutKey.mp hf).1
  have hnotkey : s.key ∉ s.persistedWithoutKey :=
    fun hf => (hs.mem_persistedWithoutKey.mp hf).2 rfl
  rcases hover : overwrite d.type e s.persistedWithoutKey row with ⟨row', _ | err⟩
  · have hkeeps := read?_overwrite hnotkey hover
    refine .inr ⟨w, .updated before.length row, by simp only [hfind, hover], ?_⟩
    simp only [hfind, hover, List.set_append_right _ _ (Nat.le_refl _), Nat.sub_self,
      List.set_cons_zero]
    exact .updated hw (hkeeps.trans hw)
  · have hnone := overwrite_declared he hfields row
    rw [hover] at hnone
    cases hnone

lemma delete_edits (T : EntityType) (s : Schema) (e : Entity) (rows : List Entity) :
    (delete T s e rows).Edits T s.key rows := by
  unfold delete
  rcases s.keyOf T e with err | v
  · exact .inl ⟨rfl, rfl⟩
  rcases hfind : find? T s.key v rows with _ | ⟨i, row⟩
  · exact .inl ⟨by simp only [hfind], by simp only [hfind]⟩
  obtain ⟨hkey, before, after, rfl, rfl, -⟩ := find?_eq_some_append hfind
  obtain ⟨w, hw⟩ := exists_read?_of_hasKey hkey
  refine .inr ⟨w, .deleted before.length row, by simp only [hfind], ?_⟩
  simp only [hfind, List.eraseIdx_append_of_length_le (Nat.le_refl _), Nat.sub_self,
    List.eraseIdx_cons_zero]
  exact .deleted hw

lemma write_edits (hs : s.IsOf d.type) (he : d.Fits e.scalars) (op : Operation) :
    (write d.type s op e rows).Edits d.type s.key rows := by
  cases op with
  | insert => exact create_edits ..
  | update => exact update_edits hs he
  | delete => exact delete_edits ..

/-! ### Places -/

/-- How far down a table there are places that the changes yet to be undone remember. No such place
moves when a row from there on is taken out. -/
def reach : List Undo → Nat
  | [] => 0
  | .created .. :: us => reach us
  | .updated position _ :: us => max (position + 1) (reach us)
  | .deleted position _ :: us => max position (reach us - 1)

/-- One change is undone at a place, where rows of the transaction are exchanged for others. A
created row is the last one under its key, and stands behind all places that older changes
remember. -/
inductive Finds (M : Entity → Bool) (us : List Undo) :
    Undo → List Entity → List Entity → List Entity → List Entity → Prop
  | created {T : EntityType} {key : String} {v : Value} {before after : List Entity} {row : Entity}
    (found : hasKey T key v row = true) (last : ∀ r ∈ after, hasKey T key v r = false)
    (own : ∀ r, hasKey T key v r = true → M r = true) (behind : reach us ≤ before.length) :
    Finds M us (.created T key v) before [row] [] after
  | updated {before after : List Entity} {row old : Entity} (own : M row = true)
    (own_old : M old = true) : Finds M us (.updated before.length old) before [row] [old] after
  | deleted {before after : List Entity} {row : Entity} (own : M row = true) :
    Finds M us (.deleted before.length row) before [] [row] after

/-- All changes, undone one after another, find their places. -/
inductive Sound (M : Entity → Bool) : List Undo → List Entity → Prop
  | nil {rows : List Entity} : Sound M [] rows
  | cons {u : Undo} {us : List Undo} {before now old after : List Entity}
    (finds : Finds M us u before now old after) (rest : Sound M us (before ++ old ++ after)) :
    Sound M (u :: us) (before ++ now ++ after)

section Sound

variable {M : Entity → Bool} {before now old after A B E m m' : List Entity}

lemma Finds.undo_eq (h : Finds M us u before now old after) :
    undo (before ++ now ++ after) u = before ++ old ++ after := by
  cases h with
  | created found last =>
    rw [List.append_assoc, List.singleton_append, undo_created_of_key found last, List.append_nil]
  | updated => simp [undo]
  | deleted => simp [undo]

lemma Finds.own (h : Finds M us u before now old after) :
    (∀ r ∈ now, M r = true) ∧ ∀ r ∈ old, M r = true := by
  cases h with
  | created found _ own => exact ⟨by simpa using own _ found, by simp⟩
  | updated own own_old => exact ⟨by simpa using own, by simpa using own_old⟩
  | deleted own => exact ⟨by simp, by simpa using own⟩

lemma Finds.length_le (h : Finds M us u before now old after) : now.length ≤ 1 := by
  cases h <;> simp

/-- Where all that is remembered stands before a place behind the change, it still does when the
change is undone. -/
lemma Finds.reach_le (h : Finds M us u before now old after)
    (hreach : reach (u :: us) ≤ (before ++ now ++ E).length) :
    reach us ≤ (before ++ old ++ E).length := by
  cases h <;>
    simp only [reach, List.length_append, List.length_cons, List.length_nil] at hreach ⊢ <;>
    omega

lemma Finds.reach_le_of_lt {n : Nat} (h : Finds M us u before now old after)
    (hlt : n < before.length + now.length) (hreach : reach (u :: us) ≤ n) : reach us ≤ n := by
  cases h <;> simp only [reach, List.length_cons, List.length_nil] at hreach hlt ⊢ <;> omega

/-- Behind the place rows that are not of the transaction may be exchanged. -/
lemma Finds.exchange_after (h : Finds M us u before now old (E ++ m ++ B))
    (hm' : ∀ r ∈ m', M r = false) : Finds M us u before now old (E ++ m' ++ B) := by
  cases h with
  | created found last own behind =>
    refine .created found (fun r hr => ?_) own behind
    simp only [List.mem_append] at hr last
    rcases hr with (hr | hr) | hr
    · exact last r (.inl (.inl hr))
    · refine Bool.eq_false_iff.mpr fun hkey => ?_
      exact Bool.false_ne_true ((hm' r hr).symm.trans (own r hkey))
    · exact last r (.inr hr)
  | updated own own_old => exact .updated own own_old
  | deleted own => exact .deleted own

/-- Before the place they may be exchanged for as many others; for more or fewer, if all that is
remembered stands before them. -/
lemma Finds.exchange_before (h : Finds M us u (A ++ m ++ E) now old after)
    (hbefore : A.length < (A ++ m ++ E).length + now.length)
    (hfits : m.length = m'.length ∨ reach (u :: us) ≤ A.length) :
    Finds M us u (A ++ m' ++ E) now old after := by
  have hlength : m.length = m'.length → (A ++ m ++ E).length = (A ++ m' ++ E).length := by
    intro hm
    simp [hm]
  generalize hplace : A ++ m ++ E = before at h hbefore hlength
  cases h with
  | created found last own behind =>
    refine .created found last own ?_
    rcases hfits with hm | hreach
    · exact hlength hm ▸ behind
    · have hle : A.length ≤ (A ++ m' ++ E).length := by simp
      exact Nat.le_trans hreach hle
  | updated own own_old =>
    rcases hfits with hm | hreach
    · rw [hlength hm]
      exact .updated own own_old
    · simp only [reach] at hreach
      have hle : A.length ≤ before.length := by simp [← hplace]
      omega
  | deleted own =>
    rcases hfits with hm | hreach
    · rw [hlength hm]
      exact .deleted own
    · simp only [reach, List.length_nil] at hreach hbefore
      omega

/-- All places that are remembered are in the table. -/
lemma Sound.reach_le (h : Sound M us rows) : reach us ≤ rows.length := by
  induction h with
  | nil => exact Nat.zero_le _
  | cons finds rest ih =>
    cases finds <;>
      simp only [reach, List.length_append, List.length_cons, List.length_nil] at ih ⊢ <;>
      omega

/-- What is not of the transaction is left alone, in its order, when its changes are undone. -/
lemma Sound.filter_not (h : Sound M us rows) :
    (undoAll rows us).filter (fun r => !M r) = rows.filter fun r => !M r := by
  induction h with
  | nil => rfl
  | @cons u us before now old after finds rest ih =>
    obtain ⟨hnow, hold⟩ := finds.own
    have hnone : ∀ rs : List Entity, (∀ r ∈ rs, M r = true) → rs.filter (fun r => !M r) = [] :=
      fun rs hrs => List.filter_eq_nil_iff.mpr fun r hr => by simp [hrs r hr]
    have hstep : undoAll (before ++ now ++ after) (u :: us) = undoAll (before ++ old ++ after) us :=
      congrArg (undoAll · us) finds.undo_eq
    rw [hstep, ih]
    simp only [List.filter_append, hnone now hnow, hnone old hold]

/-- Where one row of a transaction and one that is not are in a table, one stands before the
other. -/
lemma before_or_after (heq : before ++ now ++ after = A ++ m ++ B) (hnow : ∀ r ∈ now, M r = true)
    (hm : ∀ r ∈ m, M r = false) (hnow₁ : now.length ≤ 1) (hm₁ : m.length ≤ 1) :
    (∃ E, A = before ++ now ++ E ∧ after = E ++ m ++ B) ∨
      A.length < before.length + now.length ∧
        ∃ E, before = A ++ m ++ E ∧ B = E ++ now ++ after := by
  by_cases hplace : before.length + now.length ≤ A.length
  · left
    rw [List.append_assoc A] at heq
    rcases List.append_eq_append_iff.mp heq with ⟨E, hA, hafter⟩ | ⟨E, hbefore, hB⟩
    · exact ⟨E, hA, by rw [hafter, List.append_assoc]⟩
    · have hE : E = [] := by
        have hlength := congrArg List.length hbefore
        simp only [List.length_append] at hlength
        exact List.eq_nil_of_length_eq_zero (by omega)
      subst hE
      exact ⟨[], by simpa using hbefore.symm, by simpa using hB.symm⟩
  · refine .inr ⟨not_le.mp hplace, ?_⟩
    have hle : (A ++ m).length ≤ before.length := by
      by_contra hlt
      rw [List.length_append] at hlt
      obtain ⟨r, rfl⟩ : ∃ r, now = [r] := List.length_eq_one_iff.mp (by omega)
      obtain ⟨x, rfl⟩ : ∃ x, m = [x] := List.length_eq_one_iff.mp (by omega)
      simp only [List.length_singleton] at hplace hlt
      rw [List.append_assoc, List.append_assoc] at heq
      obtain ⟨-, htail⟩ := List.append_inj heq (by omega)
      obtain rfl : r = x := (List.cons.inj htail).1
      have hown := hnow r (by simp)
      rw [hm r (by simp)] at hown
      cases hown
    rw [List.append_assoc before] at heq
    rcases List.append_eq_append_iff.mp heq with ⟨E, hA, hB⟩ | ⟨E, hbefore, hB⟩
    · have hE : E = [] := by
        have hlength := congrArg List.length hA
        simp only [List.length_append] at hlength hle
        exact List.eq_nil_of_length_eq_zero (by omega)
      subst hE
      exact ⟨[], by simpa using hA.symm, by simpa using hB.symm⟩
    · exact ⟨E, hbefore, by rw [hB, List.append_assoc]⟩

/-- Rows that are not of the transaction may be exchanged for as many others, and for more or fewer
behind all places that are remembered. The changes are undone as before. -/
lemma Sound.exchange (h : Sound M us rows) (hrows : rows = A ++ m ++ B)
    (hm : ∀ r ∈ m, M r = false) (hm' : ∀ r ∈ m', M r = false) (hm₁ : m.length ≤ 1)
    (hfits : m.length = m'.length ∨ reach us ≤ A.length) :
    Sound M us (A ++ m' ++ B) ∧
      (undoAll (A ++ m' ++ B) us).filter M = (undoAll rows us).filter M := by
  induction h generalizing A B with
  | nil =>
    subst hrows
    have hnone : ∀ rs : List Entity, (∀ r ∈ rs, M r = false) → rs.filter M = [] :=
      fun rs hrs => List.filter_eq_nil_iff.mpr fun r hr => by simp [hrs r hr]
    refine ⟨.nil, ?_⟩
    simp only [undoAll, List.foldl_nil, List.filter_append, hnone m hm, hnone m' hm']
  | @cons u us before now old after finds rest ih =>
    have hstep : undoAll (before ++ now ++ after) (u :: us) = undoAll (before ++ old ++ after) us :=
      congrArg (undoAll · us) finds.undo_eq
    rcases before_or_after hrows finds.own.1 hm finds.length_le hm₁ with
      ⟨E, rfl, rfl⟩ | ⟨hplace, E, rfl, rfl⟩
    · have hfinds := finds.exchange_after hm'
      obtain ⟨hsound, hundone⟩ := ih (A := before ++ old ++ E) (B := B) (by simp)
        (hfits.imp_right finds.reach_le)
      have hrows' : before ++ now ++ E ++ m' ++ B = before ++ now ++ (E ++ m' ++ B) := by simp
      have hold : before ++ old ++ E ++ m' ++ B = before ++ old ++ (E ++ m' ++ B) := by simp
      rw [hold] at hsound hundone
      rw [hrows']
      refine ⟨.cons hfinds hsound, ?_⟩
      rw [hstep, ← hundone]
      exact congrArg (fun rows => (undoAll rows us).filter M) hfinds.undo_eq
    · have hfinds := finds.exchange_before hplace hfits
      obtain ⟨hsound, hundone⟩ := ih (A := A) (B := E ++ old ++ after) (by simp)
        (hfits.imp_right (finds.reach_le_of_lt hplace))
      have hrows' : A ++ m' ++ (E ++ now ++ after) = A ++ m' ++ E ++ now ++ after := by simp
      have hold : A ++ m' ++ (E ++ old ++ after) = A ++ m' ++ E ++ old ++ after := by simp
      rw [hold] at hsound hundone
      rw [hrows']
      refine ⟨.cons hfinds hsound, ?_⟩
      rw [hstep, ← hundone]
      exact congrArg (fun rows => (undoAll rows us).filter M) hfinds.undo_eq

/-- A write of the transaction: undone first, it leads back to the table before it. -/
lemma Sound.edit_own (h : Sound M us rows) (hedit : Edit T key v rows rows' u)
    (hkey : v.isNaN = false) (hown : ∀ r, hasKey T key v r = true → M r = true) :
    Sound M (u :: us) rows' ∧ undoAll rows' (u :: us) = undoAll rows us := by
  have hshows : ∀ r, T.read? r key = some v → hasKey T key v r = true := fun r hr => by
    rw [hasKey_self hr, keyIsNaN_eq hr, hkey]
    rfl
  obtain ⟨before, now, old, after, hfinds, rfl, rfl⟩ : ∃ before now old after,
      Finds M us u before now old after ∧ rows' = before ++ now ++ after ∧
        rows = before ++ old ++ after := by
    cases hedit with
    | @created _ row shows =>
      exact ⟨rows, [row], [], [], .created (hshows row shows) (by simp) hown h.reach_le, by simp,
        by simp⟩
    | @updated before after row row' shows keeps =>
      exact ⟨before, [row'], [row], after,
        .updated (hown _ (hshows _ keeps)) (hown _ (hshows _ shows)), by simp, by simp⟩
    | @deleted before after row shows =>
      exact ⟨before, [], [row], after, .deleted (hown _ (hshows _ shows)), by simp, by simp⟩
  exact ⟨.cons hfinds h, congrArg (undoAll · us) hfinds.undo_eq⟩

/-- A write outside the transaction, that takes out no row before a place that is remembered. -/
lemma Sound.edit_other (h : Sound M us rows) (hedit : Edit T key v rows rows' u)
    (hother : ∀ r, T.read? r key = some v → M r = false)
    (hplace : ∀ i, u.vacated? = some i → reach us ≤ i) :
    Sound M us rows' ∧ (undoAll rows' us).filter M = (undoAll rows us).filter M := by
  obtain ⟨before, m, m', after, hrows, rfl, hm, hm', hm₁, hfits⟩ : ∃ before m m' after,
      rows = before ++ m ++ after ∧ rows' = before ++ m' ++ after ∧ (∀ r ∈ m, M r = false) ∧
        (∀ r ∈ m', M r = false) ∧ m.length ≤ 1 ∧
          (m.length = m'.length ∨ reach us ≤ before.length) := by
    cases hedit with
    | @created _ row shows =>
      exact ⟨rows, [], [row], [], by simp, by simp, by simp, by simpa using hother row shows,
        by simp, .inr h.reach_le⟩
    | @updated before after row row' shows keeps =>
      exact ⟨before, [row], [row'], after, by simp, by simp, by simpa using hother row shows,
        by simpa using hother row' keeps, by simp, .inl rfl⟩
    | @deleted before after row shows =>
      exact ⟨before, [row], [], after, by simp, by simp, by simpa using hother row shows, by simp,
        by simp, .inr (hplace _ rfl)⟩
  exact h.exchange hrows hm hm' hm₁ hfits

end Sound

end Table

/-! ### Many writes -/

/-- A write, passed a handle. -/
structure Turn where
  tx : Transaction
  op : Operation
  entity : Entity

/-- The changes of a table that a transaction has yet to undo, newest first. -/
def World.remembered (w : World) (tx : Transaction) (table : String) : List Undo :=
  match tx.backend.bind w.backends.get? with
  | some (.journal (some cs)) => (cs.filter (·.table = table)).map Change.undo
  | _ => []

namespace Adapter

section Turns

variable (a : Adapter) (t : MemoryTable)

/-- Make a write; if it fails, it is passed over. -/
def turn (x : Turn) (w : World) : World := (a.write x.tx x.op x.entity w).2

/-- Make writes in turn. -/
def turns (xs : List Turn) (w : World) : World := xs.foldl (fun w x => a.turn x w) w

/-- What undoes a write on the table, if it changes a row. -/
def undoOf (x : Turn) (w : World) : Option Undo :=
  (Table.write a.type a.schema x.op x.entity (w.rows t.name)).undo

/-- The keys of the rows that are written in turn through a handle. -/
def keysWritten (tx : Transaction) : List Turn → World → List Value
  | [], _ => []
  | x :: xs, w =>
    (if x.tx = tx then ((a.undoOf t x w).bind (Undo.key? a.type a.schema.key)).toList else []) ++
      keysWritten tx xs (a.turn x w)

/-- No write outside the transaction takes out a row before a place that the transaction remembers
then. -/
def keepsPlaces (tx : Transaction) : List Turn → World → Bool
  | [], _ => true
  | x :: xs, w =>
    (x.tx = tx || ((a.undoOf t x w).bind Undo.vacated?).all
      (Table.reach (w.remembered tx t.name) ≤ ·)) && keepsPlaces tx xs (a.turn x w)

end Turns

end Adapter

namespace World

variable {w : World} {b : BackendId} {table : String} {us : List Undo} {M : Entity → Bool}
  {tables : String → List Entity}

lemma Notes.remembered_eq (h : w.Notes b table us) : w.remembered ⟨some b⟩ table = us := by
  rw [Notes, Holds] at h
  simp [remembered, h, List.filter_map, Function.comp_def]

/-- The open journal leads from the table back to the rows that it had among those of the
transaction; no other table has changed. -/
structure Rewinds (w : World) (b : BackendId) (table : String) (M : Entity → Bool)
    (tables : String → List Entity) (us : List Undo) : Prop where
  notes : w.Notes b table us
  sound : Table.Sound M us (w.rows table)
  own : (Table.undoAll (w.rows table) us).filter M = (tables table).filter M
  others : ∀ other, other ≠ table → w.rows other = tables other

lemma Rewinds.update {w' : World} {rows : List Entity} {us' : List Undo}
    (h : w.Rewinds b table M tables us) (hrows : w'.rows = Function.update w.rows table rows)
    (hnotes : w'.Notes b table us') (hsound : Table.Sound M us' rows)
    (hown : (Table.undoAll rows us').filter M = (Table.undoAll (w.rows table) us).filter M) :
    w'.Rewinds b table M tables us' where
  notes := hnotes
  sound := by rwa [hrows, Function.update_self]
  own := by rw [hrows, Function.update_self, hown, h.own]
  others other ho := by rw [hrows, Function.update_of_ne ho, h.others other ho]

/-- A rollback brings the rows of the transaction back and leaves the others alone. -/
lemma Rewinds.rollback (h : w.Rewinds b table M tables us) :
    ∃ w', Transaction.rollback ⟨some b⟩ w = (.ok (), w') ∧
      (w'.rows table).filter M = (tables table).filter M ∧
      ((w'.rows table).filter fun r => !M r) = ((w.rows table).filter fun r => !M r) ∧
      ∀ other, other ≠ table → w'.rows other = tables other := by
  obtain ⟨w', hroll, hrows⟩ := h.notes.rollback
  refine ⟨w', hroll, ?_, ?_, fun other ho => ?_⟩
  · rw [hrows, Function.update_self, h.own]
  · rw [hrows, Function.update_self, h.sound.filter_not]
  · rw [hrows, Function.update_of_ne ho, h.others other ho]

end World

namespace Adapter

variable {Γ : Declarations} {a : Adapter} {t : MemoryTable} {b : BackendId} {xs : List Turn}
  {x : Turn} {w : World} {us : List Undo} {M : Entity → Bool} {tables : String → List Entity}

/-- What one write has to keep to: inside the transaction it writes rows of the transaction,
under keys that are found again; outside of it, others, and it takes out none before a place
remembered. -/
structure Abides (a : Adapter) (t : MemoryTable) (b : BackendId) (M : Entity → Bool) (x : Turn)
    (w : World) : Prop where
  handle : x.tx = ⟨some b⟩ ∨ x.tx = .autocommit
  own : x.tx = ⟨some b⟩ → ∀ v, (a.undoOf t x w).bind (Undo.key? a.type a.schema.key) = some v →
    v.isNaN = false ∧ ∀ r, Table.hasKey a.type a.schema.key v r = true → M r = true
  other : x.tx = .autocommit → ∀ v, (a.undoOf t x w).bind (Undo.key? a.type a.schema.key) = some v →
    ∀ r, a.type.read? r a.schema.key = some v → M r = false
  places : x.tx = .autocommit → ∀ i, (a.undoOf t x w).bind Undo.vacated? = some i →
    Table.reach (w.remembered ⟨some b⟩ t.name) ≤ i

/-- After one such write the journal still leads back. -/
lemma Abides.turn (ha : a.Declared Γ) (hm : a.storage = .memory t) (ht : t.backend = some b)
    (he : (Γ.of a.type.name).Fits x.entity.scalars) (hx : a.Abides t b M x w)
    (h : w.Rewinds b t.name M tables us) : ∃ us', (a.turn x w).Rewinds b t.name M tables us' := by
  rcases write_noted hm ht h.notes x.tx x.op x.entity with
    ⟨-, hrows, hnotes⟩ | ⟨-, hrows, hnotes⟩
  · have hsame : (a.turn x w).rows = Function.update w.rows t.name (w.rows t.name) := by
      rw [Function.update_eq_self]
      exact hrows
    exact ⟨us, h.update hsame hnotes h.sound rfl⟩
  have hT : a.type = (Γ.of a.type.name).type := ha.type
  have hs : a.schema.IsOf (Γ.of a.type.name).type := hT ▸ ha.schema
  have hedits : (Table.write _ a.schema x.op x.entity (w.rows t.name)).Edits _ a.schema.key
      (w.rows t.name) := Table.write_edits hs he x.op
  rw [← hT] at hedits
  rcases hedits with ⟨hundo, hunchanged⟩ | ⟨v, u, hundo, hedit⟩
  · rw [hundo, Option.toList_none, List.nil_append, ite_self] at hnotes
    rw [hunchanged] at hrows
    exact ⟨us, h.update hrows hnotes h.sound rfl⟩
  have hkey : (a.undoOf t x w).bind (Undo.key? a.type a.schema.key) = some v := by
    rw [undoOf, hundo]
    exact hedit.key?_eq
  rw [hundo] at hnotes
  rcases hx.handle with htx | htx
  · obtain ⟨hnan, hown⟩ := hx.own htx v hkey
    obtain ⟨hsound, hundone⟩ := h.sound.edit_own hedit hnan hown
    have hincludes : x.tx.includes b = true := by simp [htx, Transaction.includes]
    rw [if_pos hincludes] at hnotes
    exact ⟨u :: us, h.update hrows hnotes hsound (by rw [hundone])⟩
  · have hplace : ∀ i, u.vacated? = some i → Table.reach us ≤ i := by
      intro i hi
      rw [← h.notes.remembered_eq]
      refine hx.places htx i ?_
      rw [undoOf, hundo]
      exact hi
    obtain ⟨hsound, hundone⟩ := h.sound.edit_other hedit (hx.other htx v hkey) hplace
    have hexcludes : ¬x.tx.includes b = true := by
      simp [htx, Transaction.includes, Transaction.autocommit]
    rw [if_neg hexcludes] at hnotes
    exact ⟨us, h.update hrows hnotes hsound hundone⟩

/-- Whether a row is under one of the keys. -/
def ofKeys (a : Adapter) (vs : List Value) (row : Entity) : Bool :=
  vs.any fun v => Table.hasKey a.type a.schema.key v row

lemma mem_keysWritten {tx : Transaction} {v : Value} (htx : x.tx = tx)
    (hv : (a.undoOf t x w).bind (Undo.key? a.type a.schema.key) = some v) :
    v ∈ a.keysWritten t tx (x :: xs) w := by
  rw [keysWritten, if_pos htx, hv]
  exact List.mem_append_left _ (List.mem_singleton_self v)

/-- After many writes the journal still leads back. -/
lemma rewinds_turns (ha : a.Declared Γ) (hm : a.storage = .memory t) (ht : t.backend = some b)
    {vs : List Value} (hfits : ∀ x ∈ xs, (Γ.of a.type.name).Fits x.entity.scalars)
    (hhandles : ∀ x ∈ xs, x.tx = ⟨some b⟩ ∨ x.tx = .autocommit)
    (hown : ∀ v ∈ a.keysWritten t ⟨some b⟩ xs w, v ∈ vs) (hkeys : ∀ v ∈ vs, v.isNaN = false)
    (hapart : ∀ v ∈ vs, ∀ v' ∈ a.keysWritten t .autocommit xs w, v'.same v = false)
    (hplaces : a.keepsPlaces t ⟨some b⟩ xs w = true)
    (h : w.Rewinds b t.name (a.ofKeys vs) tables us) :
    ∃ us', (a.turns xs w).Rewinds b t.name (a.ofKeys vs) tables us' := by
  induction xs generalizing w us with
  | nil => exact ⟨us, h⟩
  | cons x xs ih =>
    rw [keepsPlaces, Bool.and_eq_true] at hplaces
    have hx : a.Abides t b (a.ofKeys vs) x w := by
      refine ⟨hhandles x (by simp), fun htx v hv => ?_, fun htx v hv r hr => ?_, fun htx i hi => ?_⟩
      · have hmem := hown v (mem_keysWritten htx hv)
        exact ⟨hkeys v hmem, fun r hr => List.any_eq_true.mpr ⟨v, hmem, hr⟩⟩
      · refine List.any_eq_false.mpr fun v' hv' hsame => ?_
        rw [Table.hasKey, hr] at hsame
        exact Bool.false_ne_true ((hapart v' hv' v (mem_keysWritten htx hv)).symm.trans hsame)
      · have hplace := hplaces.1
        rw [hi, htx] at hplace
        simpa [Transaction.autocommit] using hplace
    obtain ⟨us₁, h₁⟩ := hx.turn ha hm ht (hfits x (by simp)) h
    refine ih (fun y hy => hfits y (by simp [hy])) (fun y hy => hhandles y (by simp [hy]))
      (fun v hv => hown v ?_) (fun v hv v' hv' => hapart v hv v' ?_) ?_ h₁
    · exact List.mem_append_right _ hv
    · exact List.mem_append_right _ hv'
    · exact hplaces.2

/-- **A rollback undoes its own writes alone.** Writes are made in any order on one table of a
declared type, some inside a transaction and some outside of it, and none of them on rows under keys
of the others. Let the keys created inside be found again, and let no write outside take out a row
before a place that is remembered inside. Then a rollback goes through; the rows under the keys
written inside are as they were when the transaction began, and all the others as they were left. -/
theorem rollback_spares_others {b : String} {w₀ : World} {tx : Transaction} (ha : a.Declared Γ)
    (hm : a.storage = .memory t) (ht : t.journalName = some b)
    (hclosed : w₀.backends.get? (.memory b) = some (.journal none))
    (hbegin : Transaction.begin (.memory b) w₀ = (.ok tx, w))
    (hfits : ∀ x ∈ xs, (Γ.of a.type.name).Fits x.entity.scalars)
    (hhandles : ∀ x ∈ xs, x.tx = tx ∨ x.tx = .autocommit)
    (hkeys : ∀ v ∈ a.keysWritten t tx xs w, v.isNaN = false)
    (hapart : ∀ v ∈ a.keysWritten t tx xs w, ∀ v' ∈ a.keysWritten t .autocommit xs w,
      v'.same v = false)
    (hplaces : a.keepsPlaces t tx xs w = true) :
    ∃ w', tx.rollback (a.turns xs w) = (.ok (), w') ∧
      (w'.rows t.name).filter (a.ofKeys (a.keysWritten t tx xs w)) =
        (w₀.rows t.name).filter (a.ofKeys (a.keysWritten t tx xs w)) ∧
      ((w'.rows t.name).filter fun r => !a.ofKeys (a.keysWritten t tx xs w) r) =
        (((a.turns xs w).rows t.name).filter fun r => !a.ofKeys (a.keysWritten t tx xs w) r) ∧
      ∀ other, other ≠ t.name → w'.rows other = w₀.rows other := by
  obtain ⟨rfl, hrows, hnotes⟩ := World.notes_begin hclosed hbegin t.name
  have hbackend : t.backend = some (.memory b) := by rw [MemoryTable.backend, ht]; rfl
  have hstart : w.Rewinds (.memory b) t.name
      (a.ofKeys (a.keysWritten t ⟨some (.memory b)⟩ xs w)) w₀.rows [] :=
    ⟨hnotes, .nil, by rw [hrows]; rfl, fun other _ => by rw [hrows]⟩
  obtain ⟨us, hend⟩ := rewinds_turns ha hm hbackend hfits hhandles (fun _ hv => hv) hkeys hapart
    hplaces hstart
  exact hend.rollback

end Adapter

/-! ### Countries under their codes -/

namespace Atlas

def countryType : Declaration where
  name := "Country"
  fields := [("code", .text), ("name", .text)]

def types : Declarations := .ofList [countryType]

def countries : Adapter where
  type := countryType.type
  schema := ⟨"Country", [⟨"code", some ⟨.text, false⟩, .key false⟩,
    ⟨"name", some ⟨.text, false⟩, .scalar⟩], "code", false⟩
  storage := .memory ⟨"countries", some "atlas"⟩

def country (code name : String) : Entity where
  scalars := [("code", .text code), ("name", .text name)]
  children := []

lemma country_fits (code name : String) : countryType.Fits (country code name).scalars :=
  Declaration.fits_of_forall₂ (.cons ⟨rfl, code, rfl⟩ (.cons ⟨rfl, name, rfl⟩ .nil))

lemma countries_declared : countries.Declared types := ⟨rfl, some "code", none, rfl⟩

def globe : World where
  tables := [("countries", [country "CH" "Swiss", country "DE" "Germany", country "FR" "France",
    country "IT" "Italy"])]
  backends := [(.memory "atlas", .journal none)]

def tx : Transaction := ⟨some (.memory "atlas")⟩

/-- The transaction is open. -/
def globe₁ : World := (Transaction.begin (.memory "atlas") globe).2

def inside (op : Operation) (code name : String) : Turn := ⟨tx, op, country code name⟩

def outside (op : Operation) (code name : String) : Turn := ⟨.autocommit, op, country code name⟩

/-- Inside and outside by turns. Italy stands behind all that the transaction has written. -/
def edition : List Turn :=
  [inside .update "DE" "Deutschland", outside .insert "AT" "Austria",
    outside .update "CH" "Switzerland", inside .delete "FR" "", outside .delete "IT" "",
    inside .insert "LI" "Liechtenstein", inside .update "LI" "Triesen"]

lemma edition_inside : countries.keysWritten ⟨"countries", some "atlas"⟩ tx edition globe₁ =
    [.text "DE", .text "FR", .text "LI", .text "LI"] := rfl

lemma edition_outside :
    countries.keysWritten ⟨"countries", some "atlas"⟩ .autocommit edition globe₁ =
      [.text "AT", .text "CH", .text "IT"] := rfl

lemma edition_places :
    countries.keepsPlaces ⟨"countries", some "atlas"⟩ tx edition globe₁ = true := rfl

lemma edition_rows : (countries.turns edition globe₁).rows "countries" =
    [country "CH" "Switzerland", country "DE" "Deutschland", country "AT" "Austria",
      country "LI" "Triesen"] := rfl

lemma edition_fits : ∀ x ∈ edition, countryType.Fits x.entity.scalars := by
  simp only [edition, List.forall_mem_cons, inside, outside, List.not_mem_nil, false_implies,
    implies_true, and_true]
  exact ⟨country_fits _ _, country_fits _ _, country_fits _ _, country_fits _ _, country_fits _ _,
    country_fits _ _, country_fits _ _⟩

lemma edition_handles : ∀ x ∈ edition, x.tx = tx ∨ x.tx = .autocommit := by
  simp [edition, inside, outside]

/-- Germany and France are back, Liechtenstein is gone; what was written outside has stayed. -/
theorem edition_withdrawn : ∃ w, tx.rollback (countries.turns edition globe₁) = (.ok (), w) ∧
    (w.rows "countries").filter
        (countries.ofKeys [.text "DE", .text "FR", .text "LI", .text "LI"]) =
      [country "DE" "Germany", country "FR" "France"] ∧
    ((w.rows "countries").filter fun r =>
        !countries.ofKeys [.text "DE", .text "FR", .text "LI", .text "LI"] r) =
      [country "CH" "Switzerland", country "AT" "Austria"] := by
  have hkeys : ∀ v ∈ countries.keysWritten ⟨"countries", some "atlas"⟩ tx edition globe₁,
      v.isNaN = false := by
    rw [edition_inside]
    simp [Value.isNaN]
  have hapart : ∀ v ∈ countries.keysWritten ⟨"countries", some "atlas"⟩ tx edition globe₁,
      ∀ v' ∈ countries.keysWritten ⟨"countries", some "atlas"⟩ .autocommit edition globe₁,
        v'.same v = false := by
    rw [edition_inside, edition_outside]
    simp [Value.same]
  have hmemory : countries.storage = .memory ⟨"countries", some "atlas"⟩ := rfl
  have hbegin : Transaction.begin (.memory "atlas") globe = (.ok tx, globe₁) := rfl
  obtain ⟨w, hroll, hown, hothers, -⟩ := Adapter.rollback_spares_others countries_declared hmemory
    rfl rfl hbegin edition_fits edition_handles hkeys hapart edition_places
  rw [edition_inside] at hown hothers
  rw [edition_rows] at hothers
  exact ⟨w, hroll, hown, hothers⟩

/-- Switzerland stands before Germany, and is taken out from outside. -/
def shifted : List Turn :=
  [inside .update "DE" "Deutschland", outside .delete "CH" "", outside .update "FR" "République"]

/-- No row is written by both. Yet the rollback finds France where it remembers Germany: the change
of Germany stays, and France is lost. -/
theorem france_lost : ∃ w, Transaction.begin (.memory "atlas") globe = (.ok tx, globe₁) ∧
    countries.keysWritten ⟨"countries", some "atlas"⟩ tx shifted globe₁ = [.text "DE"] ∧
    countries.keysWritten ⟨"countries", some "atlas"⟩ .autocommit shifted globe₁ =
      [.text "CH", .text "FR"] ∧
    (countries.turns shifted globe₁).rows "countries" =
      [country "DE" "Deutschland", country "FR" "République", country "IT" "Italy"] ∧
    tx.rollback (countries.turns shifted globe₁) = (.ok (), w) ∧
    w.rows "countries" =
      [country "DE" "Deutschland", country "DE" "Germany", country "IT" "Italy"] :=
  ⟨(tx.rollback (countries.turns shifted globe₁)).2, rfl, rfl, rfl, rfl, rfl, rfl⟩

end Atlas

end EntityStore
