import EntityStore.Proofs.Boundary

/-!
The statements that a commit gets through. Each write that goes through sends one statement that
changes a table, and perhaps a query for the key that it generated. A write that fails has changed
nothing, but for an insert whose key did not come back.
-/

namespace EntityStore

open Fallible Sql

/-! ### Statements on a connection -/

namespace Connection

variable (name sql : String) (mode : Mode) (bindings : List Binding)

lemma log_run (w : World) : (run name mode sql bindings w).2.log =
    w.log ++ [.statement name mode sql bindings (run name mode sql bindings w).1.isOk] := by
  have hanswer : (answer name w).2.trace = w.trace := by
    unfold answer
    split
    · dsimp only
      split <;> rfl
    · rfl
  have hrun : (run name mode sql bindings w).2 = (answer name w).2.note
      (.statement name mode sql bindings (run name mode sql bindings w).1.isOk) := rfl
  rw [hrun, World.log_note, World.log_congr hanswer]

lemma log_query (w : World) : (query name sql bindings w).2.log =
    w.log ++ [.statement name .query sql bindings (query name sql bindings w).1.isOk] := by
  have hlog := log_run name sql .query bindings w
  unfold query
  rw [bind_apply]
  rcases hr : run name .query sql bindings w with ⟨_ | reply, w'⟩
  · rw [hr] at hlog; exact hlog
  · rw [hr] at hlog; exact hlog

lemma log_exec (w : World) : (exec name sql bindings w).2.log =
    w.log ++ [.statement name .exec sql bindings (exec name sql bindings w).1.isOk] := by
  have hlog := log_run name sql .exec bindings w
  unfold exec
  rw [bind_apply]
  rcases hr : run name .exec sql bindings w with ⟨_ | reply, w'⟩
  · rw [hr] at hlog; exact hlog
  · rw [hr] at hlog; exact hlog

/-- The first value of the first row, if there is one. -/
def firstValue (rows : List Row) : Except Report Value :=
  match rows with
  | ((_, v) :: _) :: _ => .ok v
  | _ => .error (.plain "insert returned no identity")

lemma firstValue_eq_error {rows : List Row} {r : Report} (h : firstValue rows = .error r) :
    r = .plain "insert returned no identity" := by
  unfold firstValue at h
  split at h
  · cases h
  · cases h
    rfl

lemma insert_eq (d : Dialect) : insert name sql bindings d =
    if d.identityBatched then
      query name sql bindings >>= fun rows => Fallible.ofExcept (firstValue rows)
    else discard (exec name sql bindings) >>= fun _ => query name d.identity [] >>= fun rows =>
      Fallible.ofExcept (firstValue rows) := by
  have hfirst : ∀ rows : List Row, Fallible.ofExcept (firstValue rows) =
      (match rows with
        | ((_, v) :: _) :: _ => return v
        | _ => throw (.plain "insert returned no identity") : Step Report Value) := by
    intro rows
    unfold firstValue
    split <;> rfl
  simp only [hfirst]
  unfold insert
  split <;> rfl

end Connection

/-- What an insert that generates a key leaves in the log, by what comes of it: a query that brings
the key along, or the statement and then, if it went through, the query for the key. -/
inductive Connection.Inserts (name sql : String) (bindings : List Binding) (d : Dialect) :
    Except Report Value → List Event → Prop
  | batched (hd : d.identityBatched) (reply : Except Report (List Row)) :
    Inserts name sql bindings d (reply >>= firstValue)
      [.statement name .query sql bindings reply.isOk]
  | refused (hd : d.identityBatched = false) (r : Report) :
    Inserts name sql bindings d (.error r) [.statement name .exec sql bindings false]
  | followed (hd : d.identityBatched = false) (reply : Except Report (List Row)) :
    Inserts name sql bindings d (reply >>= firstValue)
      [.statement name .exec sql bindings true, .statement name .query d.identity [] reply.isOk]

lemma Connection.inserts (name sql : String) (bindings : List Binding) (d : Dialect) (w : World) :
    ∃ events, (insert name sql bindings d w).2.log = w.log ++ events ∧
      Inserts name sql bindings d (insert name sql bindings d w).1 events := by
  -- The first value is looked for in what a query brings back, whatever query it is.
  have hquery : ∀ sql bindings w, ((query name sql bindings >>= fun rows =>
        Fallible.ofExcept (firstValue rows)) w).1 = (query name sql bindings w).1 >>= firstValue ∧
      ((query name sql bindings >>= fun rows => Fallible.ofExcept (firstValue rows)) w).2.log =
        w.log ++ [.statement name .query sql bindings (query name sql bindings w).1.isOk] := by
    intro sql bindings w
    have hlog := log_query name sql bindings w
    rw [bind_apply]
    rcases hq : query name sql bindings w with ⟨r | rows, w'⟩ <;> rw [hq] at hlog <;>
      exact ⟨rfl, hlog⟩
  rw [insert_eq]
  split
  · rename_i hd
    rw [(hquery sql bindings w).1]
    exact ⟨_, (hquery sql bindings w).2, .batched hd _⟩
  · rename_i hd
    have hd : d.identityBatched = false := by simpa using hd
    have hlog := log_exec name sql bindings w
    rcases he : exec name sql bindings w with ⟨r | n, w'⟩ <;> rw [he] at hlog
    · have hexec : discard (exec name sql bindings) w = (.error r, w') := bind_of_error he
      rw [bind_of_error hexec]
      exact ⟨_, hlog, .refused hd r⟩
    · have hexec : discard (exec name sql bindings) w = (.ok (), w') := bind_of_ok he
      rw [bind_of_ok hexec, (hquery d.identity [] w').1, (hquery d.identity [] w').2, hlog,
        List.append_assoc]
      exact ⟨_, rfl, .followed hd _⟩

/-- What follows an insert that generates a key: nothing where the key comes with it, and else the
query for the key, if it is asked. -/
def Asked (d : Dialect) (connection : String) (tail : List Event) : Prop :=
  tail = [] ∨ d.identityBatched = false ∧
    ∃ ok, tail = [.statement connection .query d.identity [] ok]

/-- An insert leaves itself in the log, and the query for the key. Where it goes through and there
is no key all the same, the query failed or nothing came back. -/
lemma Connection.log_insert (name sql : String) (bindings : List Binding) (d : Dialect)
    (w : World) :
    ∃ mode ok tail, (insert name sql bindings d w).2.log =
        w.log ++ .statement name mode sql bindings ok :: tail ∧ Asked d name tail ∧
      ∀ r, (insert name sql bindings d w).1 = .error r → ok = true →
        tail = [.statement name .query d.identity [] false] ∨
          r = .plain "insert returned no identity" := by
  obtain ⟨events, hlog, hinserts⟩ := inserts name sql bindings d w
  generalize (insert name sql bindings d w).1 = result at hinserts ⊢
  cases hinserts with
  | batched hd reply =>
    refine ⟨_, _, [], hlog, .inl rfl, fun r hr hok => .inr ?_⟩
    rcases reply with r' | rows
    · cases hok
    · exact firstValue_eq_error hr
  | refused hd r => exact ⟨_, _, [], hlog, .inl rfl, fun _ _ hok => by cases hok⟩
  | followed hd reply =>
    refine ⟨_, _, _, hlog, .inr ⟨hd, _, rfl⟩, fun r hr _ => ?_⟩
    rcases reply with r' | rows
    · exact .inl rfl
    · exact .inr (firstValue_eq_error hr)

/-! ### Statements of a table -/

/-- The statement for a kind of write. -/
def Sql.Statements.of? (st : Statements) : Operation → Option Statement
  | .insert => some st.insert
  | .update => st.update
  | .delete => some st.delete

/-- How an insert that went through can leave an entity without its key: the query for it failed,
nothing came back, or what came back does not fit. -/
inductive KeyLost (t : SqlTable) (T : EntityType) (s : Schema) (tail : List Event) (err : Error) :
    Prop
  | unanswered (failed : tail = [.statement t.connection .query t.dialect.identity [] false])
  | missing (none : err = (Report.context s!"failed to insert into {t.name}"
      (.plain "insert returned no identity")).toError)
  | unfit {e : Entity} {key : Value} (refused : T.assign e s.key key = .error err)

/-- What a write leaves in the log of its connection, by what comes of it: nothing; or its
statement, which goes through if the write does; or an insert that generates a key. -/
inductive Says {α : Type} (t : SqlTable) (T : EntityType) (s : Schema) :
    Operation → Except Error α → List Event → Prop
  | nothing {op : Operation} {result : Except Error α} : Says t T s op result []
  | statement {op : Operation} {st : Statement} {bindings : List Binding} {result : Except Error α}
    (of : t.statements.of? op = some st) : Says t T s op result
      [.statement t.connection .exec (st.text t.dialect) bindings result.isOk]
  | keyed {mode : Mode} {bindings : List Binding} {ok : Bool} {tail : List Event}
    {result : Except Error α} (generated : s.generated) (asked : Asked t.dialect t.connection tail)
    (lost : ∀ err, result = .error err → ok = true → KeyLost t T s tail err) :
    Says t T s .insert result
      (.statement t.connection mode (t.statements.insert.text t.dialect) bindings ok :: tail)

/-- To make something of what came of a write. -/
lemma Says.bind_pure {α β : Type} {t : SqlTable} {T : EntityType} {s : Schema} {op : Operation}
    {x : Step Error α} {w : World} {b : β} {events : List Event}
    (h : Says t T s op (x w).1 events) :
    Says t T s op ((x >>= fun _ => pure b : Step Error β) w).1 events := by
  rw [bind_apply]
  rcases hx : x w with ⟨err | a, w'⟩
  · rw [hx] at h
    cases h with
    | nothing => exact .nothing
    | statement of => exact .statement of
    | keyed generated asked lost =>
      exact .keyed generated asked fun err' herr hok => lost err' (by cases herr; rfl) hok
  · rw [hx] at h
    cases h with
    | nothing => exact .nothing
    | statement of => exact .statement of
    | keyed generated asked lost => exact .keyed generated asked fun err herr _ => by cases herr

namespace SqlTable

variable (t : SqlTable) (T : EntityType) (s : Schema) (e : Entity)

/-- A command is logged, and goes through if what it is part of does. -/
lemma log_command (what sql : String) (bindings : List Binding) (w : World) :
    (discard (t.doing what (Connection.exec t.connection sql bindings)) w).2.log =
      w.log ++ [.statement t.connection .exec sql bindings
        (discard (t.doing what (Connection.exec t.connection sql bindings)) w).1.isOk] := by
  have hlog := Connection.log_exec t.connection sql bindings w
  have hdiscard : discard (t.doing what (Connection.exec t.connection sql bindings)) =
      t.doing what (Connection.exec t.connection sql bindings) >>=
        fun _ => (pure () : Step Error Unit) := rfl
  rw [hdiscard, bind_apply]
  unfold doing Step.reported Step.context
  simp only [adapt_apply]
  rcases he : Connection.exec t.connection sql bindings w with ⟨r | n, w'⟩ <;> rw [he] at hlog <;>
    exact hlog

lemma says_exec (op : Operation) {st : Statement} (of : t.statements.of? op = some st)
    (what : String) (bindings : List Binding) (w : World) : ∃ events,
    (discard (t.doing what (Connection.exec t.connection (st.text t.dialect) bindings)) w).2.log =
        w.log ++ events ∧
      Says t T s op
        (discard (t.doing what (Connection.exec t.connection (st.text t.dialect) bindings)) w).1
        events :=
  ⟨_, t.log_command what (st.text t.dialect) bindings w, .statement of⟩

lemma says_create (w : World) : ∃ events, (t.create T s e w).2.log = w.log ++ events ∧
    Says t T s .insert (t.create T s e w).1 events := by
  unfold create
  rw [bind_apply]
  simp only [ofExcept_apply]
  rcases t.bindings T e s.insertable with err | params
  · exact ⟨[], (List.append_nil _).symm, .nothing⟩
  · dsimp only
    split
    · rename_i hgenerated
      obtain ⟨mode, ok, tail, hlog, hasked, hlost⟩ := Connection.log_insert t.connection
        (t.statements.insert.text t.dialect) params t.dialect w
      rw [bind_apply]
      unfold doing Step.reported Step.context
      simp only [adapt_apply]
      rcases hi :
          Connection.insert t.connection (t.statements.insert.text t.dialect) params t.dialect w
        with ⟨r | key, w'⟩
      · rw [hi] at hlog hlost
        refine ⟨_, hlog, .keyed hgenerated hasked fun err herr hok => ?_⟩
        cases herr
        rcases hlost r rfl hok with htail | hnone
        · exact .unanswered htail
        · rw [hnone]
          exact .missing rfl
      · rw [hi] at hlog
        exact ⟨_, hlog, .keyed hgenerated hasked fun err herr _ => .unfit herr⟩
    · obtain ⟨events, hlog, hsays⟩ := t.says_exec T s .insert rfl "insert into" params w
      exact ⟨events, (congrArg World.log (snd_bind_pure _ _ w)).trans hlog, hsays.bind_pure⟩

lemma says_update (w : World) : ∃ events, (t.update T s e w).2.log = w.log ++ events ∧
    Says t T s .update (t.update T s e w).1 events := by
  unfold update
  rcases hst : t.statements.update with _ | st
  · exact ⟨[], (List.append_nil _).symm, .nothing⟩
  · dsimp only
    rw [bind_apply]
    simp only [ofExcept_apply]
    rcases t.bindings T e s.persisted with err | params
    · exact ⟨[], (List.append_nil _).symm, .nothing⟩
    · exact t.says_exec T s .update hst "update" params w

lemma says_delete (w : World) : ∃ events, (t.delete T s e w).2.log = w.log ++ events ∧
    Says t T s .delete (t.delete T s e w).1 events := by
  unfold delete
  rw [bind_apply]
  simp only [ofExcept_apply]
  rcases t.bindings T e [s.key] with err | params
  · exact ⟨[], (List.append_nil _).symm, .nothing⟩
  · exact t.says_exec T s .delete rfl "delete from" params w

end SqlTable

/-! ### One write -/

namespace Adapter

variable (a : Adapter) (tx : Transaction)

/-- What a write notes of itself, and what it leaves in the log of its connection. -/
def Logged {α : Type} (op : Operation) (w : World) (x : Step Error α) : Prop :=
  ∃ notes events, (x w).2.log = w.log ++ notes ++ events ∧ (∀ n ∈ notes, n.isStatement = false) ∧
    (events = [] ∨ ∃ t, a.storage = .sql t ∧ Says t a.type a.schema op (x w).1 events)

variable {a tx} {op : Operation} {e : Entity} {w : World}

lemma logged_of_announce {α : Type} {f : MemoryTable → Step Error α} {g : SqlTable → Step Error α}
    (hf : ∀ t w, (f t w).2.trace = w.trace)
    (hg : ∀ t w, ∃ events, (g t w).2.log = w.log ++ events ∧
      Says t a.type a.schema op (g t w).1 events) :
    a.Logged op w (a.announce op e >>= fun _ => match a.storage with
      | .memory t => f t
      | .sql t => g t) := by
  have hnote : ∀ guard key, (w.note (.write guard op a.type.name key e)).log =
      w.log ++ [.write guard op a.type.name key e] := fun _ _ => World.log_note _
  have hwrite : ∀ guard key, ∀ n ∈ [Event.write guard op a.type.name key e],
      n.isStatement = false := by
    intro guard key n hn
    obtain rfl := List.mem_singleton.mp hn
    rfl
  unfold Logged
  rw [bind_apply]
  rcases a.announce_cases op e w with ⟨err, h⟩ | ⟨err | ok, guard, key, h⟩
  · rw [h]
    exact ⟨[], [], by simp, by simp, .inl rfl⟩
  · rw [h]
    exact ⟨_, [], by rw [List.append_nil]; exact hnote guard key, hwrite guard key, .inl rfl⟩
  · rw [h]
    dsimp only
    rcases hs : a.storage with t | t
    · refine ⟨_, [], ?_, hwrite guard key, .inl rfl⟩
      rw [List.append_nil, ← hnote]
      exact World.log_congr (hf t _)
    · obtain ⟨events, hlog, hsays⟩ := hg t (w.note (.write guard op a.type.name key e))
      rw [hnote] at hlog
      exact ⟨_, events, hlog, hwrite guard key, .inr ⟨t, rfl, hsays⟩⟩

lemma Logged.bind_pure {α β : Type} {x : Step Error α} (h : a.Logged op w x) (b : β) :
    a.Logged op w (x >>= fun _ => pure b) := by
  obtain ⟨notes, events, hlog, hnotes, hsays⟩ := h
  refine ⟨notes, events, (congrArg World.log (snd_bind_pure x _ w)).trans hlog, hnotes, ?_⟩
  exact hsays.imp_right fun ⟨t, ht, hsays⟩ => ⟨t, ht, hsays.bind_pure⟩

/-- What a write leaves in the log, whatever comes of it. -/
lemma logged_write (a : Adapter) (tx : Transaction) (op : Operation) (e : Entity) (w : World) :
    a.Logged op w (a.write tx op e) := by
  have hmemory : ∀ {α : Type} (t : MemoryTable) (f : List Entity → Table.Outcome α) (w : World),
      (t.write tx f w).2.trace = w.trace := by
    intro α t f w
    unfold MemoryTable.write
    dsimp only
    rcases t.journal_cases tx (f (w.rows t.name)).undo (w.withRows t.name (f (w.rows t.name)).rows)
      with h | ⟨b, u, -, h⟩
    · rw [h, World.trace_withRows]
    · rw [h, World.trace_journal, World.trace_withRows]
  cases op with
  | insert =>
    exact logged_of_announce (fun t w => hmemory t _ w) fun t w => t.says_create a.type a.schema e w
  | update =>
    refine Logged.bind_pure (x := a.update tx e) ?_ e
    exact logged_of_announce (fun t w => hmemory t _ w) fun t w => t.says_update a.type a.schema e w
  | delete =>
    refine Logged.bind_pure (x := a.delete tx e) ?_ e
    exact logged_of_announce (fun t w => hmemory t _ w) fun t w => t.says_delete a.type a.schema e w

end Adapter

/-! ### A commit -/

namespace UnitOfWork

section Changes

variable (u : UnitOfWork)

/-- Whether the statement is the query of a registered table for the key that an insert has
generated. -/
def asksIdentity (connection : String) (mode : Mode) (sql : String) (bindings : List Binding) :
    Bool :=
  u.stores.any fun s =>
    match s.adapter.storage with
    | .sql t => !t.dialect.identityBatched && connection == t.connection && mode == .query &&
        sql == t.dialect.identity && bindings.isEmpty
    | .memory _ => false

/-- Whether the event is a statement that went through and is not a query for a key. -/
def changed : Event → Bool
  | .statement connection mode sql bindings ok => ok && !u.asksIdentity connection mode sql bindings
  | _ => false

/-- The event is an insert, update or delete in a registered table, and went through. -/
def ChangesTable (e : Event) : Prop :=
  ∃ s ∈ u.stores, ∃ t op st mode bindings, s.adapter.storage = .sql t ∧
    t.statements.of? op = some st ∧
      e = .statement t.connection mode (st.text t.dialect) bindings true

/-- The events end with an insert through the store that went through, and the query for its key,
which was lost. -/
def EndsKeyless (s : DataStore) (err : Error) (front : List Event) (events : List Event) : Prop :=
  ∃ t mode bindings tail, s.adapter.storage = .sql t ∧ s.adapter.schema.generated ∧
    events = front ++
      .statement t.connection mode (t.statements.insert.text t.dialect) bindings true :: tail ∧
    Asked t.dialect t.connection tail ∧ KeyLost t s.adapter.type s.adapter.schema tail err

/-- Up to now no more changes went through than were counted. -/
structure Accounted (w : World) (events : List Event) (p : Progress) : Prop where
  log : p.world.log = w.log ++ events
  changes : ∀ e ∈ events, u.changed e → u.ChangesTable e
  count : events.countP u.changed ≤ p.applied

/-- The changes that went through are accounted for but for an insert whose key was lost, which is
the last. -/
structure Unaccounted (w : World) (events : List Event) (h : Halt) (p : Progress) : Prop where
  log : p.world.log = w.log ++ events
  changes : ∀ e ∈ events, u.changed e → u.ChangesTable e
  surplus : ∃ s ∈ u.stores, s.type.name = h.entity ∧ ∃ front, EndsKeyless s h.error front events ∧
    front.countP u.changed ≤ p.applied

end Changes

variable {u : UnitOfWork} {s : DataStore} {t : SqlTable} {op : Operation} {events : List Event}
  {w : World}

lemma changed_asked (hs : s ∈ u.stores) (ht : s.adapter.storage = .sql t)
    (h : Asked t.dialect t.connection events) : ∀ e ∈ events, u.changed e = false := by
  rcases h with rfl | ⟨hbatched, ok, rfl⟩
  · simp
  · intro e he
    obtain rfl := List.mem_singleton.mp he
    have hasks : u.asksIdentity t.connection .query t.dialect.identity [] :=
      List.any_eq_true.mpr ⟨s, hs, by simp [ht, hbatched]⟩
    rw [changed, hasks, Bool.not_true, Bool.and_false]

/-- A write changes what its statements change; one that fails, nothing but for the key lost. -/
lemma changed_says {result : Except Error Entity} (hs : s ∈ u.stores)
    (ht : s.adapter.storage = .sql t)
    (h : Says t s.adapter.type s.adapter.schema op result events) :
    (∀ e ∈ events, u.changed e → u.ChangesTable e) ∧ events.countP u.changed ≤ 1 ∧
      ∀ err, result = .error err → events.countP u.changed = 0 ∨ EndsKeyless s err [] events := by
  have hstatement : ∀ op {st mode bindings ok}, t.statements.of? op = some st →
      u.changed (.statement t.connection mode (st.text t.dialect) bindings ok) →
      u.ChangesTable (.statement t.connection mode (st.text t.dialect) bindings ok) := by
    intro op st mode bindings ok hst hchanged
    obtain rfl : ok = true := (Bool.and_eq_true_iff.mp hchanged).1
    exact ⟨s, hs, t, op, st, mode, bindings, ht, hst, rfl⟩
  cases h with
  | nothing => exact ⟨by simp, by simp, fun _ _ => .inl rfl⟩
  | @statement _ st bindings _ hst =>
    refine ⟨fun e he => ?_, List.countP_le_length, fun err herr => .inl ?_⟩
    · obtain rfl := List.mem_singleton.mp he
      exact hstatement op hst
    · subst herr
      rfl
  | @keyed mode bindings ok tail _ hgenerated hasked hlost =>
    have htail := changed_asked hs ht hasked
    have hcount : tail.countP u.changed = 0 :=
      List.countP_eq_zero.mpr fun e he => by rw [htail e he]; exact Bool.false_ne_true
    refine ⟨fun e he hchanged => ?_, ?_, fun err herr => ?_⟩
    · rcases List.mem_cons.mp he with rfl | he
      · exact hstatement .insert rfl hchanged
      · rw [htail e he] at hchanged
        cases hchanged
    · rw [List.countP_cons, hcount]
      split <;> omega
    · -- The insert failed itself, or it is what went through and the key was lost after it.
      rcases ok with _ | _
      · left
        rw [List.countP_cons, hcount]
        rfl
      · exact .inr ⟨t, mode, bindings, tail, ht, hgenerated, rfl, hasked, hlost err herr rfl⟩

lemma EndsKeyless.append {err : Error} {front : List Event} (h : EndsKeyless s err front events)
    (before : List Event) : EndsKeyless s err (before ++ front) (before ++ events) := by
  obtain ⟨t, mode, bindings, tail, ht, hgenerated, rfl, hasked, hlost⟩ := h
  exact ⟨t, mode, bindings, tail, ht, hgenerated, (List.append_assoc ..).symm, hasked, hlost⟩

/-- The same with what the write has noted of itself. -/
lemma changed_write (hs : s ∈ u.stores) (op : Operation) (e : Entity) (w : World) : ∃ events,
    (s.adapter.write .autocommit op e w).2.log = w.log ++ events ∧
      (∀ x ∈ events, u.changed x → u.ChangesTable x) ∧ events.countP u.changed ≤ 1 ∧
      ∀ err, (s.adapter.write .autocommit op e w).1 = .error err → events.countP u.changed = 0 ∨
        ∃ front, EndsKeyless s err front events ∧ front.countP u.changed = 0 := by
  obtain ⟨notes, said, hlog, hnotes, hsays⟩ := s.adapter.logged_write .autocommit op e w
  have hquiet : ∀ n ∈ notes, u.changed n = false := by
    intro n hn
    have hn := hnotes n hn
    cases n with
    | statement => cases hn
    | call => rfl
    | write => rfl
  have hnone : notes.countP u.changed = 0 :=
    List.countP_eq_zero.mpr fun n hn => by rw [hquiet n hn]; exact Bool.false_ne_true
  refine ⟨notes ++ said, by rw [hlog, List.append_assoc], ?_⟩
  rw [List.countP_append, hnone, Nat.zero_add]
  rcases hsays with rfl | ⟨t, ht, hsays⟩
  · refine ⟨fun x hx hchanged => ?_, Nat.zero_le _, fun _ _ => .inl rfl⟩
    rw [List.append_nil] at hx
    rw [hquiet x hx] at hchanged
    cases hchanged
  · obtain ⟨hchanges, hone, hfailed⟩ := changed_says hs ht hsays
    refine ⟨fun x hx hchanged => ?_, hone, fun err herr => ?_⟩
    · rcases List.mem_append.mp hx with hx | hx
      · rw [hquiet x hx] at hchanged
        cases hchanged
      · exact hchanges x hx hchanged
    · refine (hfailed err herr).imp_right fun hend => ⟨notes, ?_, hnone⟩
      have hend := hend.append notes
      rwa [List.append_nil] at hend

/-- One more write, by whether it goes through. -/
lemma Accounted.write (hs : s ∈ u.stores) (op : Operation) (e : Entity) {phase : Phase} :
    Triple (fun p => ∃ events, u.Accounted w events p)
      (Committing.ofStep s.type.name phase (s.adapter.write .autocommit op e) >>= fun e' => do
        modify fun p => { p with applied := p.applied + 1 }
        return e')
      (fun _ p => ∃ events, u.Accounted w events p)
      fun h p => (∃ events, u.Accounted w events p) ∨ ∃ events, u.Unaccounted w events h p := by
  rintro p ⟨events, haccounted⟩
  obtain ⟨said, hlog, hchanges, hone, hfailed⟩ := changed_write hs op e p.world
  rw [haccounted.log, List.append_assoc] at hlog
  have hall : ∀ x ∈ events ++ said, u.changed x → u.ChangesTable x := fun x hx hchanged =>
    (List.mem_append.mp hx).elim (haccounted.changes x · hchanged) (hchanges x · hchanged)
  rw [bind_apply]
  unfold Committing.ofStep
  rcases hw : s.adapter.write .autocommit op e p.world with ⟨err | e', w'⟩
  · rw [hw] at hlog hfailed
    rcases hfailed err rfl with hnone | ⟨front, hend, hnone⟩
    · refine .inl ⟨_, hlog, hall, ?_⟩
      rw [List.countP_append, hnone]
      exact haccounted.count
    · refine .inr ⟨_, hlog, hall, s, hs, rfl, events ++ front, hend.append events, ?_⟩
      rw [List.countP_append, hnone]
      exact haccounted.count
  · rw [hw] at hlog
    refine ⟨_, hlog, hall, ?_⟩
    rw [List.countP_append]
    exact Nat.add_le_add haccounted.count hone

/-- All writes of a commit outside a transaction. -/
lemma keeps_accounted (u : UnitOfWork) (w : World) :
    u.Keeps .autocommit (fun p => ∃ events, u.Accounted w events p) (fun _ _ => True)
      (fun h p => (∃ events, u.Accounted w events p) ∨ ∃ events, u.Unaccounted w events h p) where
  halt _ _ hp := .inl hp
  write phase op T e _ := by
    refine (Committing.triple_ofExcept (fun _ _ hp => .inl hp) _).bind_of fun s hs => ?_
    obtain ⟨hmem, hname⟩ := store?_eq_some (store_eq_ok hs)
    rw [← hname]
    exact (Accounted.write hmem op e).mono (fun _ hp => hp) (fun _ _ hp => ⟨hp, trivial⟩)
      fun _ _ hp => hp
  child _ _ _ _ _ _ _ _ := trivial
  assign _ _ _ _ _ _ _ := trivial
  collect _ _ _ _ _ _ _ := trivial

/-- **No change is uncounted, but for an insert whose key was lost.** Where the stores that take
part share no backend, a commit that fails has got through as many changes as it reports, or fewer,
or one more. The one more is the last of them: the insert of the entity that it failed on, through a
store that generates keys, where the key could not be obtained. -/
theorem commit_executed {err : Error} {w' : World}
    (hshared : u.sharedBackend (u.participants u.types) = none)
    (h : u.commit.1 w = (.error err, w')) :
    ∃ applied entity phase cause events, err = .commit applied false entity phase cause ∧
      w'.log = w.log ++ events ∧ (∀ e ∈ events, u.changed e → u.ChangesTable e) ∧
      (events.countP u.changed ≤ applied ∨ events.countP u.changed = applied + 1 ∧
        ∃ s ∈ u.stores, s.type.name = entity ∧ ∃ front, EndsKeyless s cause front events ∧
          front.countP u.changed = applied) := by
  obtain ⟨halt, p, hr, rfl, rfl⟩ := commit_autocommit hshared h
  have hbatches : ∀ b ∈ u.batches, Keeps.OfBatch (fun _ _ => True) b := fun _ _ _ _ => trivial
  have hstart : ∃ events, u.Accounted w events ⟨w, 0⟩ :=
    ⟨[], (List.append_nil _).symm, by simp, Nat.le_refl _⟩
  have hend := (u.keeps_accounted w).applyAll hbatches ⟨w, 0⟩ hstart
  rw [hr] at hend
  rcases hend with ⟨events, hend⟩ | ⟨events, hend⟩
  · exact ⟨_, _, _, _, events, rfl, hend.log, hend.changes, .inl hend.count⟩
  · obtain ⟨s, hs, hname, front, hkeyless, hfront⟩ := hend.surplus
    refine ⟨_, _, _, _, events, rfl, hend.log, hend.changes, ?_⟩
    have ⟨t, mode, bindings, tail, ht, _, hevents, hasked, _⟩ := hkeyless
    have htail : tail.countP u.changed = 0 := List.countP_eq_zero.mpr fun e he => by
      rw [changed_asked hs ht hasked e he]
      exact Bool.false_ne_true
    have hcount : events.countP u.changed ≤ front.countP u.changed + 1 := by
      rw [hevents, List.countP_append, List.countP_cons, htail]
      split <;> omega
    by_cases hle : events.countP u.changed ≤ p.applied
    · exact .inl hle
    · exact .inr ⟨by omega, s, hs, hname, front, hkeyless, by omega⟩

end UnitOfWork

namespace Census

/-- The registry in two databases, in which a person is buffered to be inserted. -/
def parted : UnitOfWork where
  stores := [⟨behind people "east" .sqlite, [⟨.insert, eduard⟩]⟩,
    ⟨behind numbers "west" .sqlite, []⟩]
  relations := [identifications]

/-- The eastern database takes the person, and then does not say under which key. -/
def mute : World where
  backends := [(.connection "east", .remote { script := [{ affected := 1 },
      { failure := some (.plain "connection lost") }] }),
    (.connection "west", .remote {})]

/-- The registry is told that no write went through, and that the insert of the person is the one
that went through unreported. -/
theorem parted_executed :
    parted.sharedBackend (parted.participants parted.types) = none ∧
    ∃ cause w' events,
      parted.commit.1 mute = (.error (.commit 0 false "Person" .insert cause), w') ∧
      w'.log = mute.log ++ events ∧ events.countP parted.changed = 1 ∧
      ∃ s ∈ parted.stores, s.type.name = "Person" ∧ ∃ front,
        UnitOfWork.EndsKeyless s cause front events ∧ front.countP parted.changed = 0 := by
  have hshared : parted.sharedBackend (parted.participants parted.types) = none := by decide
  have hrun : ∃ cause w', parted.commit.1 mute =
      (.error (.commit 0 false "Person" .insert cause), w') := ⟨_, _, rfl⟩
  obtain ⟨cause, w', hrun⟩ := hrun
  have hcount : w'.log.countP parted.changed = 1 := by
    have hmute : (parted.commit.1 mute).2.log.countP parted.changed = 1 := by decide +kernel
    rwa [hrun] at hmute
  obtain ⟨applied, entity, phase, cause', events, herr, hlog, -, hbound⟩ :=
    UnitOfWork.commit_executed hshared hrun
  obtain ⟨rfl, -, rfl, rfl, rfl⟩ := Error.commit.inj herr
  have hempty : mute.log = [] := rfl
  rw [hlog, hempty, List.nil_append] at hcount
  refine ⟨hshared, cause, w', events, hrun, hlog, hcount, ?_⟩
  rcases hbound with hle | ⟨-, hkeyless⟩
  · omega
  · exact hkeyless

/-- No write is reported, but the person is stored. -/
theorem mute_uncounted :
    parted.sharedBackend (parted.participants parted.types) = none ∧
    (∃ cause, (parted.commit.1 mute).1 = .error (.commit 0 false "Person" .insert cause)) ∧
    (parted.commit.1 mute).2.log.countP parted.changed = 1 := by
  refine ⟨by decide, ⟨_, rfl⟩, by decide +kernel⟩

end Census

end EntityStore
