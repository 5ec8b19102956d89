import EntityStore.Proofs.Triple
import EntityStore.Store.SqlTable

/-!
Speaking to a database. Whatever statements a table of a database sends over its connection, and
however they are answered, the tables in memory and the journals stay as they are, and the trace
tells of statements alone.
-/

namespace EntityStore

open Fallible

/-- The event tells of a statement on a connection. -/
def Event.isStatement : Event → Bool
  | .statement .. => true
  | _ => false

namespace World

/-- From one world to the other connections were spoken to, and nothing else happened. -/
structure Spoke (w w' : World) : Prop where
  tables : w'.tables = w.tables
  journals : ∀ id cs,
    w'.backends.get? id = some (.journal cs) ↔ w.backends.get? id = some (.journal cs)
  trace : ∃ events, w'.trace = events ++ w.trace ∧ ∀ e ∈ events, e.isStatement

lemma Spoke.refl (w : World) : w.Spoke w := ⟨rfl, fun _ _ => Iff.rfl, [], rfl, by simp⟩

lemma Spoke.trans {w w' w'' : World} (h : w.Spoke w') (h' : w'.Spoke w'') : w.Spoke w'' := by
  obtain ⟨events, ht, hs⟩ := h.trace
  obtain ⟨events', ht', hs'⟩ := h'.trace
  refine ⟨h'.tables.trans h.tables, fun id cs => (h'.journals id cs).trans (h.journals id cs),
    events' ++ events, ?_, fun e he => ?_⟩
  · rw [ht', ht, List.append_assoc]
  · rcases List.mem_append.mp he with he | he
    · exact hs' e he
    · exact hs e he

end World

/-- The step does no more than speak to connections. -/
def Talks {ε α : Type} (x : Step ε α) : Prop := ∀ w : World, w.Spoke (x w).2

section Talks

variable {ε ε' α β : Type}

lemma Talks.pure (a : α) : Talks (Pure.pure a : Step ε α) := World.Spoke.refl

lemma Talks.ofExcept (x : Except ε α) : Talks (ofExcept x) := World.Spoke.refl

lemma Talks.bind {x : Step ε α} {f : α → Step ε β} (hx : Talks x) (hf : ∀ a, Talks (f a)) :
    Talks (x >>= f) := by
  intro w
  have h := hx w
  rw [bind_apply]
  rcases hr : x w with ⟨e | a, w'⟩
  · rw [hr] at h
    exact h
  · rw [hr] at h
    exact h.trans (hf a w')

lemma Talks.discard {x : Step ε α} (hx : Talks x) : Talks (discard x) :=
  hx.bind fun _ => Talks.pure _

lemma Talks.adapt {x : Step ε α} (hx : Talks x) (f : ε → ε') : Talks (x.adapt f : Step ε' α) := hx

namespace Connection

variable (name sql : String) (mode : Mode) (bindings : List Sql.Binding)

/-- Taking an answer out of the script leaves every journal alone. -/
lemma spoke_answer (w : World) : w.Spoke (answer name w).2 := by
  unfold answer
  split
  · rename_i r hr
    have hspoke : w.Spoke (w.withBackend (.connection name)
        (.remote { r with script := r.script.drop 1 })) := by
      refine ⟨rfl, fun id cs => ?_, [], rfl, by simp⟩
      rw [World.backends_withBackend]
      by_cases hid : id = .connection name
      · subst hid
        rw [Keyed.get?_put_self, hr]
        simp
      · rw [Keyed.get?_put_of_ne _ _ hid]
    dsimp only
    split
    · exact hspoke
    · exact hspoke
  · exact .refl w

lemma talks_run : Talks (run name mode sql bindings) := by
  intro w
  refine (spoke_answer name w).trans ⟨rfl, fun _ _ => Iff.rfl, [_], rfl, fun e he => ?_⟩
  obtain rfl := List.mem_singleton.mp he
  rfl

lemma talks_query : Talks (query name sql bindings) :=
  (talks_run name sql _ bindings).bind fun _ => Talks.pure _

lemma talks_exec : Talks (exec name sql bindings) :=
  (talks_run name sql _ bindings).bind fun _ => Talks.pure _

lemma talks_insert (d : Sql.Dialect) : Talks (insert name sql bindings d) := by
  unfold insert
  dsimp only
  split
  · refine (talks_query name sql bindings).bind fun rows => ?_
    split
    · exact Talks.pure _
    · exact Talks.ofExcept (.error _)
  · refine (talks_exec name sql bindings).discard.bind fun _ => ?_
    refine (talks_query name d.identity []).bind fun rows => ?_
    split
    · exact Talks.pure _
    · exact Talks.ofExcept (.error _)

end Connection

namespace SqlTable

variable (t : SqlTable) (T : EntityType) (s : Schema) (e : Entity)

lemma talks_doing (what : String) {x : Step Report α} (hx : Talks x) : Talks (t.doing what x) :=
  (hx.adapt _).adapt _

lemma talks_create : Talks (t.create T s e) := by
  refine (Talks.ofExcept _).bind fun params => ?_
  dsimp only
  split
  · exact (t.talks_doing _ (Connection.talks_insert _ _ _ _)).bind fun _ => Talks.ofExcept _
  · exact (t.talks_doing _ (Connection.talks_exec _ _ _)).discard.bind fun _ => Talks.pure _

lemma talks_update : Talks (t.update T s e) := by
  unfold update
  split
  · exact Talks.pure _
  · refine (Talks.ofExcept _).bind fun params => ?_
    exact (t.talks_doing _ (Connection.talks_exec _ _ _)).discard

lemma talks_delete : Talks (t.delete T s e) := by
  refine (Talks.ofExcept _).bind fun params => ?_
  exact (t.talks_doing _ (Connection.talks_exec _ _ _)).discard

end SqlTable

end Talks

end EntityStore
