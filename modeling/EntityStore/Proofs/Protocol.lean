import EntityStore.Proofs.Halting

/-!
The calls that open and close transactions. A commit opens its transaction once, before all writes,
and closes it once, after the last; a handle is closed once, whatever is done with it. Backends may
refuse any of these calls at any time.
-/

namespace EntityStore

open Fallible

/-! ### Calls of a handle -/

namespace Transaction

/-- The events that a call of the handle leaves in the trace: none without a backend. -/
def events (tx : Transaction) (c : Call) (ok : Bool) : List Event :=
  match tx.backend with
  | some b => [.call b c ok]
  | none => []

variable {tx tx' : Transaction} {w w' : World} {err : Error}

lemma log_close (tx : Transaction) (c : Call) (w : World) :
    (tx.close c w).2.log = w.log ++ tx.events c (tx.close c w).1.isOk := by
  obtain ⟨_ | b⟩ := tx
  · exact (List.append_nil _).symm
  · have hok : ((⟨some b⟩ : Transaction).close c w).1.isOk = (Backend.call b c w).1.isOk := by
      rw [close_open]
      rcases (Backend.call b c w).1 with _ | _ <;> rfl
    rw [hok, close_open, World.log, Backend.trace_call, List.reverse_cons]
    rfl

/-- Only an open handle can be refused a call, and the backend says why. -/
lemma close_eq_error {c : Call} (h : tx.close c w = (.error err, w')) :
    ∃ b report, tx = ⟨some b⟩ ∧ err = .backendExecution report ∧
      w'.log = w.log ++ [.call b c false] := by
  have hlog := tx.log_close c w
  rw [h] at hlog
  obtain ⟨_ | b⟩ := tx
  · cases h
  · rw [close_open] at h
    rcases hc : (Backend.call b c w).1 with report | x
    · rw [hc] at h
      cases h
      exact ⟨b, report, rfl, rfl, hlog⟩
    · rw [hc] at h
      cases h

lemma log_tryCommit_ok (h : tx.tryCommit w = (.ok tx', w')) :
    tx' = .autocommit ∧ w'.log = w.log ++ tx.events .commit true := by
  obtain ⟨_, w₁, hclose, h⟩ := bind_eq_ok.mp h
  cases h
  have hlog := tx.log_close .commit w
  rw [hclose] at hlog
  exact ⟨rfl, hlog⟩

lemma log_tryCommit_error (h : tx.tryCommit w = (.error err, w')) :
    ∃ b report, tx = ⟨some b⟩ ∧ err = .backendExecution report ∧
      w'.log = w.log ++ [.call b .commit false] := by
  rcases bind_eq_error.mp h with h | ⟨_, w₁, -, h⟩
  · exact close_eq_error h
  · cases h

/-- To pass over a refusal undoes nothing of what was done. -/
lemma drop_world (tx : Transaction) (w : World) : (tx.drop w).2 = (tx.close .rollback w).2 := by
  unfold drop
  rw [bind_apply, tryCatch_apply, bind_apply]
  rcases tx.close .rollback w with ⟨_ | _, _⟩ <;> rfl

lemma log_drop (b : BackendId) (w : World) :
    ∃ ok, ((⟨some b⟩ : Transaction).drop w).2.log = w.log ++ [.call b .rollback ok] := by
  rw [drop_world, log_close]
  exact ⟨_, rfl⟩

lemma log_undoWrites {rolledBack : Bool} (h : UnitOfWork.undoWrites tx w = (rolledBack, w')) :
    ∃ ok, w'.log = w.log ++ tx.events .rollback ok ∧ rolledBack = (tx.isActive && ok) := by
  have hlog := tx.log_close .rollback w
  unfold UnitOfWork.undoWrites at h
  obtain ⟨_ | b⟩ := tx
  · cases h
    exact ⟨false, (List.append_nil _).symm, rfl⟩
  · rw [rollback] at h
    rcases hr : (⟨some b⟩ : Transaction).close .rollback w with ⟨e | x, w₁⟩
    · rw [hr] at h hlog
      cases h
      exact ⟨false, hlog, rfl⟩
    · rw [hr] at h hlog
      cases h
      exact ⟨true, hlog, rfl⟩

/-! ### The life of a handle -/

/-- What can be done with a handle. -/
inductive Use where
  /-- Try to commit; after a refusal the handle is still open. -/
  | attempt
  | commit
  | rollback
  | drop

/-- The handle that a use leaves, and the world. -/
def use (tx : Transaction) (w : World) : Use → Transaction × World
  | .attempt =>
    match tx.tryCommit w with
    | (.ok tx', w') => (tx', w')
    | (.error _, w') => (tx, w')
  | .commit => (.autocommit, (tx.commit w).2)
  | .rollback => (.autocommit, (tx.rollback w).2)
  | .drop => (.autocommit, (tx.drop w).2)

/-- What the uses of a handle lead to, with the drop that ends its life. -/
def live (tx : Transaction) (w : World) : List Use → World
  | [] => (tx.drop w).2
  | x :: xs => (tx.use w x).1.live (tx.use w x).2 xs

/-- Between two worlds the handle of a backend was closed: after refused commits there was one that
went through, or one rollback, which may have been refused. -/
def ClosedOnce (b : BackendId) (w w' : World) : Prop :=
  ∃ n last, w'.log = w.log ++ List.replicate n (.call b .commit false) ++ [last] ∧
    (last = .call b .commit true ∨ ∃ ok, last = .call b .rollback ok)

lemma ClosedOnce.of_log {b : BackendId} {last : Event} (h : w'.log = w.log ++ [last])
    (hlast : last = .call b .commit true ∨ ∃ ok, last = .call b .rollback ok) :
    ClosedOnce b w w' :=
  ⟨0, last, by rw [h, List.replicate_zero, List.append_nil], hlast⟩

/-- A refused commit before only adds to those there are. -/
lemma ClosedOnce.refused {b : BackendId} {w₁ : World} (h : ClosedOnce b w₁ w')
    (hw : w₁.log = w.log ++ [.call b .commit false]) : ClosedOnce b w w' := by
  obtain ⟨n, last, hlog, hlast⟩ := h
  refine ⟨n + 1, last, ?_, hlast⟩
  rw [hlog, hw, List.replicate_succ]
  simp

lemma closedOnce_drop (b : BackendId) (w : World) :
    ClosedOnce b w ((⟨some b⟩ : Transaction).drop w).2 := by
  obtain ⟨ok, hlog⟩ := log_drop b w
  exact .of_log hlog (.inr ⟨ok, rfl⟩)

lemma closedOnce_commit (b : BackendId) (w : World) :
    ClosedOnce b w ((⟨some b⟩ : Transaction).commit w).2 := by
  unfold commit
  rw [tryCatch_apply]
  rcases hr : (⟨some b⟩ : Transaction).tryCommit w with ⟨e | tx', w₁⟩
  · have hfail : (discard (⟨some b⟩ : Transaction).tryCommit) w = (.error e, w₁) :=
      bind_of_error hr
    rw [hfail]
    obtain ⟨_, _, h, -, hlog⟩ := log_tryCommit_error hr
    cases h
    have hworld : ((do (⟨some b⟩ : Transaction).drop; throw e : Step Error Unit) w₁).2 =
        ((⟨some b⟩ : Transaction).drop w₁).2 := by
      rw [bind_apply]
      rcases (⟨some b⟩ : Transaction).drop w₁ with ⟨_ | _, _⟩ <;> rfl
    have hclosed := (closedOnce_drop b w₁).refused hlog
    rw [← hworld] at hclosed
    exact hclosed
  · have hdone : (discard (⟨some b⟩ : Transaction).tryCommit) w = (.ok (), w₁) :=
      bind_of_ok hr
    rw [hdone]
    exact .of_log (log_tryCommit_ok hr).2 (.inl rfl)

/-- A use of an open handle leaves it open after a refused commit, or closes it. -/
lemma use_open (b : BackendId) (w : World) (x : Use) :
    ((use ⟨some b⟩ w x).1 = ⟨some b⟩ ∧
        (use ⟨some b⟩ w x).2.log = w.log ++ [.call b .commit false]) ∨
      ((use ⟨some b⟩ w x).1 = .autocommit ∧ ClosedOnce b w (use ⟨some b⟩ w x).2) := by
  cases x with
  | attempt =>
    unfold use
    rcases hr : (⟨some b⟩ : Transaction).tryCommit w with ⟨e | tx', w₁⟩
    · obtain ⟨_, _, h, -, hlog⟩ := log_tryCommit_error hr
      cases h
      exact .inl ⟨rfl, hlog⟩
    · obtain ⟨rfl, hlog⟩ := log_tryCommit_ok hr
      exact .inr ⟨rfl, .of_log hlog (.inl rfl)⟩
  | commit => exact .inr ⟨rfl, closedOnce_commit b w⟩
  | rollback =>
    exact .inr ⟨rfl, .of_log (log_close ⟨some b⟩ .rollback w) (.inr ⟨_, rfl⟩)⟩
  | drop => exact .inr ⟨rfl, closedOnce_drop b w⟩

/-- A handle without a backend makes no call. -/
lemma live_autocommit (w : World) (xs : List Use) : live .autocommit w xs = w := by
  induction xs with
  | nil => rfl
  | cons x xs ih => cases x <;> exact ih

lemma live_open (b : BackendId) (w : World) (xs : List Use) :
    ClosedOnce b w (live ⟨some b⟩ w xs) := by
  induction xs generalizing w with
  | nil => exact closedOnce_drop b w
  | cons x xs ih =>
    rw [live]
    rcases use_open b w x with ⟨hopen, hlog⟩ | ⟨hclosed, hlog⟩
    · rw [hopen]
      exact (ih _).refused hlog
    · rw [hclosed, live_autocommit]
      exact hlog

end Transaction

/-! ### Calls of a commit -/

namespace UnitOfWork

variable {u : UnitOfWork} {tx : Transaction} {w w' : World} {err : Error}

lemma log_openFor_ok {types : List String} (h : u.openFor types w = (.ok tx, w')) :
    tx.backend = u.sharedBackend (u.participants types) ∧
      w'.log = w.log ++ tx.events .begin true := by
  rw [openFor_eq] at h
  obtain ⟨_, w₁, hclose, h⟩ := bind_eq_ok.mp h
  cases h
  have hlog := Transaction.log_close ⟨u.sharedBackend (u.participants types)⟩ .begin w
  rw [hclose] at hlog
  exact ⟨rfl, hlog⟩

lemma log_openFor_error {types : List String} (h : u.openFor types w = (.error err, w')) :
    ∃ b report, u.sharedBackend (u.participants types) = some b ∧
      err = .backendExecution report ∧ w'.log = w.log ++ [.call b .begin false] := by
  rw [openFor_eq] at h
  rcases bind_eq_error.mp h with h | ⟨_, w₁, -, h⟩
  · obtain ⟨b, report, hb, rfl, hlog⟩ := Transaction.close_eq_error h
    exact ⟨b, report, congrArg Transaction.backend hb, rfl, hlog⟩
  · cases h

/-- A commit has opened its transaction in a world, if there is a backend that is shared, and has
then attempted writes, and nothing else. -/
structure Session (u : UnitOfWork) (tx : Transaction) (w : World) (xs : List Attempt) (w' : World) :
    Prop where
  work : u.batches ≠ []
  backend : tx.backend = u.sharedBackend (u.participants u.types)
  run : ∃ w₁ events, u.openFor u.types w = (.ok tx, w₁) ∧
    w₁.log = w.log ++ tx.events .begin true ∧ Attempts tx w₁ xs w' ∧
    w'.log = w₁.log ++ events ∧ ∀ e ∈ events, e.isCall = false
  stores : ∀ x ∈ xs, x.store ∈ u.stores

/-- The ways in which a commit can go, by the calls that it makes, the writes between them, and what
it tells of them. -/
inductive Course (u : UnitOfWork) (w : World) : Except Error Committed → World → Prop
  /-- Nothing is buffered. -/
  | idle (none : u.batches = []) : Course u w (.ok ⟨0, []⟩) w
  /-- The transaction is not opened. -/
  | unopened {b : BackendId} {report : Report} {w' : World} (work : u.batches ≠ [])
    (shared : u.sharedBackend (u.participants u.types) = some b)
    (log : w'.log = w.log ++ [.call b .begin false]) :
    Course u w (.error (.backendExecution report)) w'
  /-- All writes of the plan go through, and so does the commit. -/
  | committed {tx : Transaction} {xs : List Attempt} {w₁ w' : World} {bs : List Batch}
    (session : u.Session tx w xs w₁) (ok : ∀ x ∈ xs, x.result.isOk)
    (complete : u.BeginsAll u.plan xs (some (Batch.plan bs)))
    (log : w'.log = w₁.log ++ tx.events .commit true) :
    Course u w (.ok ⟨xs.length, bs.map Batch.inserted⟩) w'
  /-- A step fails after the first writes of the plan; a write that fails is the last. -/
  | stopped {tx : Transaction} {xs : List Attempt} {failed : Option Attempt} {w₁ w' : World}
    {h : Halt} {ok : Bool} (session : u.Session tx w (xs ++ failed.toList) w₁)
    (before : ∀ x ∈ xs, x.result.isOk) (fails : ∀ x ∈ failed, x.result = .error h.error)
    (stops : u.StopsAll u.plan xs failed h) (log : w'.log = w₁.log ++ tx.events .rollback ok) :
    Course u w (.error (.commit xs.length (tx.isActive && ok) h.entity h.phase h.error)) w'
  /-- All writes of the plan go through, and the commit is refused. -/
  | refused {b : BackendId} {xs : List Attempt} {w₁ w' : World} {batch : Batch} {bs : List Batch}
    {report : Report} {ok : Bool} (session : u.Session ⟨some b⟩ w xs w₁)
    (before : ∀ x ∈ xs, x.result.isOk) (complete : u.BeginsAll u.plan xs (some (Batch.plan bs)))
    (first : u.batches.head? = some batch)
    (log : w'.log = w₁.log ++ [.call b .commit false, .call b .rollback ok]) :
    Course u w (.error (.commit xs.length ok batch.type.name .commit (.backendExecution report))) w'

lemma session_of_attempts {w₁ : World} {xs : List Attempt} (hwork : u.batches ≠ [])
    (hopen : u.openFor u.types w = (.ok tx, w₁)) (hxs : Attempts tx w₁ xs w')
    (hstores : ∀ x ∈ xs, x.store ∈ u.stores) : u.Session tx w xs w' := by
  obtain ⟨hbackend, hlog⟩ := log_openFor_ok hopen
  obtain ⟨events, hevents, hnone⟩ := hxs.uncalled
  exact ⟨hwork, hbackend, ⟨w₁, events, hopen, hlog, hxs, hevents, hnone⟩, hstores⟩

lemma Run.course {result : Except Error Committed} (h : u.Run w result w') :
    u.Course w result w' := by
  have hadvanced : ∀ {tx w₁ bs p}, u.applyAll tx u.batches ⟨w₁, 0⟩ = (.ok bs, p) → ∃ xs,
      u.Advanced tx ⟨w₁, 0⟩ p xs ∧ p.applied = xs.length ∧
        u.BeginsAll u.plan xs (some (Batch.plan bs)) := by
    intro tx w₁ bs p hall
    have hmakes := u.makes_applyAll tx ⟨w₁, 0⟩
    rw [hall] at hmakes
    obtain ⟨xs, hadvanced, hcomplete⟩ := hmakes
    exact ⟨xs, hadvanced, by rw [hadvanced.applied, Nat.zero_add], hcomplete⟩
  cases h with
  | idle none => exact .idle none
  | unopened work opened =>
    obtain ⟨b, report, hshared, rfl, hlog⟩ := log_openFor_error opened
    exact .unopened work hshared hlog
  | committed work opened applied writes closed =>
    obtain ⟨xs, hxs, hcount, hcomplete⟩ := hadvanced applied
    rw [hcount]
    exact .committed (session_of_attempts work opened hxs.attempts hxs.stores) hxs.ok hcomplete
      (Transaction.log_tryCommit_ok closed).2
  | @halted tx w₁ _ p _ _ work opened applied writes undone =>
    obtain ⟨ok, hlog, rfl⟩ := Transaction.log_undoWrites undone
    have hmakes := u.makes_applyAll tx ⟨w₁, 0⟩
    rw [applied] at hmakes
    obtain ⟨xs, failed, hxs, hstops⟩ := hmakes
    have hcount : p.applied = xs.length := by rw [hxs.applied, Nat.zero_add]
    rw [hcount]
    exact .stopped (session_of_attempts work opened hxs.attempts hxs.stores) hxs.ok hxs.fails
      hstops hlog
  | @refused _ _ _ _ _ batch _ _ _ first opened applied writes closed undone =>
    obtain ⟨xs, hxs, hcount, hcomplete⟩ := hadvanced applied
    obtain ⟨b, report, rfl, rfl, hlog⟩ := Transaction.log_tryCommit_error closed
    obtain ⟨ok, hlog', rfl⟩ := Transaction.log_undoWrites undone
    have hwork : u.batches ≠ [] := by
      intro hnil
      rw [hnil] at first
      cases first
    rw [hcount]
    refine .refused (session_of_attempts hwork opened hxs.attempts hxs.stores) hxs.ok hcomplete
      first ?_
    rw [hlog', hlog, List.append_assoc]
    rfl

/-- **Transactions are opened and closed once.** However backends answer and writes come out, a
commit goes one of its courses: it opens a transaction on the shared backend, makes the writes of
its plan up to the first step that fails, and closes the transaction by one commit or one rollback,
after the last write; without a shared backend it makes no call. Its buffers are empty afterwards. A
handle that is open is closed once by any uses of it, and one without a backend does nothing. -/
theorem commit_protocol :
    (∀ (u : UnitOfWork) (w : World), u.Course w (u.commit.1 w).1 (u.commit.1 w).2 ∧
      ∀ s ∈ u.commit.2.stores, s.pending = []) ∧
    (∀ (b : BackendId) (w : World) (uses : List Transaction.Use),
      Transaction.ClosedOnce b w (Transaction.live ⟨some b⟩ w uses)) ∧
    ∀ (w : World) (uses : List Transaction.Use), Transaction.live .autocommit w uses = w := by
  refine ⟨fun u w => ⟨(u.commit_run w).course, fun s hs => ?_⟩, Transaction.live_open,
    Transaction.live_autocommit⟩
  obtain ⟨t, -, rfl⟩ := List.mem_map.mp hs
  rfl

end UnitOfWork

end EntityStore
