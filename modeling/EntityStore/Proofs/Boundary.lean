import EntityStore.Proofs.Atomicity
import EntityStore.Proofs.Halting
import EntityStore.Proofs.Storing

/-!
Where a commit stops. A commit that goes through has made all writes of its plan in order; one
without a transaction that fails has made the first of them, as many as it reports, and the tables
are as these have left them.
-/

namespace EntityStore

open Fallible

/-- The last of writes in a row was made in the world that the others had left. -/
lemma Attempts.of_concat {tx : Transaction} {w w' : World} {xs : List Attempt} {x : Attempt}
    (h : Attempts tx w (xs ++ [x]) w') : ∃ w₁, Attempts tx w xs w₁ ∧
      x.store.adapter.write tx x.op x.entity w₁ = (x.result, w') := by
  generalize hl : xs ++ [x] = l at h
  cases h with
  | nil => simp at hl
  | snoc init last =>
    obtain ⟨rfl, hx⟩ := List.append_inj' hl rfl
    cases hx
    exact ⟨_, init, last⟩

namespace UnitOfWork

section

variable {u : UnitOfWork} {Γ : Declarations} {tx : Transaction} {p p' : Progress}
  {xs : List Attempt} {failed : Option Attempt} {h : Halt}

/-- In memory a write of a well-typed entity that fails leaves the tables to those before it. -/
lemma Halted.rows_eq (hh : u.Halted tx p p' xs failed h) (hu : u.Declared Γ) (hm : u.InMemory)
    (hhas : ∀ x ∈ failed, Γ.Has x.store.type.name x.entity) :
    ∃ w₁, Attempts tx p.world xs w₁ ∧ p'.world.rows = w₁.rows := by
  have hattempts := hh.attempts
  rcases failed with _ | x
  · rw [Option.toList_none, List.append_nil] at hattempts
    exact ⟨_, hattempts, rfl⟩
  · obtain ⟨w₁, hxs, hlast⟩ := hattempts.of_concat
    rw [hh.fails x rfl] at hlast
    have hmem : x.store ∈ u.stores := hh.stores x (by simp)
    obtain ⟨t, ht⟩ := hm x.store hmem
    have hadapter := (hu.stores x.store hmem).adapter
    exact ⟨w₁, hxs, Adapter.write_failed hadapter ht (hhas x rfl).scalars hlast⟩

end

/-! ### A commit without a transaction -/

section

variable {u : UnitOfWork} {Γ : Declarations} {w w' : World} {err : Error}

/-- Without a transaction nothing is opened and nothing undone: the writes are all there is. -/
lemma commit_autocommit (hshared : u.sharedBackend (u.participants u.types) = none)
    (h : u.commit.1 w = (.error err, w')) :
    ∃ halt p, u.applyAll .autocommit u.batches ⟨w, 0⟩ = (.error halt, p) ∧ w' = p.world ∧
      err = .commit p.applied false halt.entity halt.phase halt.error := by
  rcases hbs : u.batches with _ | ⟨b, bs⟩
  · simp only [commit, commitBuffered, hbs] at h
    cases h
  · have hopen : u.openFor ((b :: bs).map (·.type.name)) w = (.ok .autocommit, w) := by
      rw [openFor, ← hbs]
      have hnone : u.sharedBackend (u.participants (u.batches.map (·.type.name))) = none := hshared
      rw [hnone]
      rfl
    simp only [commit, commitBuffered, hbs] at h
    rw [bind_of_ok hopen] at h
    unfold commitBatches applyAndCommit at h
    rw [← hbs] at h ⊢
    rcases hr : u.applyAll .autocommit u.batches ⟨w, 0⟩ with ⟨halt | bs', p⟩
    · rw [bind_of_error hr] at h
      cases h
      exact ⟨halt, p, rfl, rfl, rfl⟩
    · have hclosed : discard (Committing.ofStep b.type.name .commit
          Transaction.autocommit.tryCommit) p = (.ok (), p) := rfl
      rw [bind_of_ok hr, bind_of_ok hclosed] at h
      cases h

/-- **The boundary is exact.** Where the stores that take part share no backend, a commit that fails
reports that nothing was rolled back. As many writes as it reports have gone through, the first of
its plan, in the world in which it began; and every table is as these have left it. -/
theorem commit_boundary (hu : u.Declared Γ) (hm : u.InMemory)
    (hshared : u.sharedBackend (u.participants u.types) = none)
    (h : u.commit.1 w = (.error err, w')) :
    ∃ applied entity phase cause xs w₁, err = .commit applied false entity phase cause ∧
      u.BeginsAll u.plan xs none ∧ xs.length = applied ∧ Attempts .autocommit w xs w₁ ∧
      (∀ x ∈ xs, u.Proper Γ x) ∧ ∀ table, w'.rows table = w₁.rows table := by
  obtain ⟨halt, p, hr, rfl, rfl⟩ := commit_autocommit hshared h
  have hmakes := u.makes_applyAll .autocommit ⟨w, 0⟩
  rw [hr] at hmakes
  obtain ⟨xs, failed, hhalted, hstops⟩ := hmakes
  obtain ⟨w₁, hxs, hrows⟩ := hhalted.rows_eq hu hm (hstops.has hu fun x hx => hu.has_plan hx)
  have hbegins := hstops.begins
  have happlied : p.applied = 0 + xs.length := hhalted.applied
  exact ⟨p.applied, halt.entity, halt.phase, halt.error, xs, w₁, rfl, hbegins, by omega, hxs,
    hbegins.proper hu fun x hx => hu.has_plan hx, fun table => congrFun hrows table⟩

end

end UnitOfWork

namespace Census

/-- The registry, with the people in a table that belongs to no journal. -/
def apart : UnitOfWork where
  stores := [⟨{ people with storage := .memory ⟨"people", none⟩ }, [⟨.insert, eduard⟩]⟩,
    ⟨numbers, []⟩]
  relations := [identifications]

lemma apart_declared : apart.Declared types where
  stores s hs := by
    rcases List.mem_pair.mp hs with rfl | rfl
    · refine ⟨⟨people_declared.type, people_declared.schema⟩, fun p hp => ?_⟩
      obtain rfl := List.mem_singleton.mp hp
      exact eduard_has
    · exact ⟨numbers_declared, by simp⟩
  relations := registry_declared.relations

lemma apart_inMemory : apart.InMemory := by
  intro s hs
  rcases List.mem_pair.mp hs with rfl | rfl
  · exact ⟨_, rfl⟩
  · exact ⟨_, rfl⟩

/-- The person is stored and stays so; the identification is not. -/
theorem crowded_apart_boundary : apart.sharedBackend (apart.participants apart.types) = none ∧
    ∃ w', apart.commit.1 crowded = (.error (.commit 1 false "Identification" .insert
        (.materialization "personId" (.int 2147483648))), w') ∧
      ∃ xs w₁, apart.BeginsAll apart.plan xs none ∧ xs.length = 1 ∧
        Attempts .autocommit crowded xs w₁ ∧ ∀ table, w'.rows table = w₁.rows table := by
  have hshared : apart.sharedBackend (apart.participants apart.types) = none := by decide
  obtain ⟨w', h⟩ : ∃ w', apart.commit.1 crowded =
      (.error (.commit 1 false "Identification" .insert
        (.materialization "personId" (.int 2147483648))), w') := ⟨_, rfl⟩
  obtain ⟨applied, entity, phase, cause, xs, w₁, herr, hbegins, hlength, hxs, -, hrows⟩ :=
    UnitOfWork.commit_boundary apart_declared apart_inMemory hshared h
  cases herr
  exact ⟨hshared, w', h, xs, w₁, hbegins, hlength, hxs, hrows⟩

end Census

end EntityStore
