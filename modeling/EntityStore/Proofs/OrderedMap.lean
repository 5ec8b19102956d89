import EntityStore.Proofs.Keys

/-!
A table in memory as a map. Under generated integer keys the rows of a table are a finite map in the
order of insertion: a creation appends a binding under a key above all others, an update and a
deletion touch the one binding of their key, and a search reads it in order. What fails leaves it
as it is.
-/

namespace EntityStore

open Fallible

/-! ### Maps in the order of insertion -/

namespace Keyed

variable {κ α : Type} [DecidableEq κ] {n before after : Keyed κ α} {key : κ} {a b : α}

/-- Remove what is under a key. -/
def erase (n : Keyed κ α) (key : κ) : Keyed κ α := n.eraseP (·.1 = key)

/-- No key is there twice. -/
def Distinct (n : Keyed κ α) : Prop := (n.map Prod.fst).Nodup

lemma get?_append (h : ∀ p ∈ before, p.1 ≠ key) :
    get? (before ++ (key, a) :: after) key = some a := by
  refine List.lookup_eq_some_iff.mpr ⟨before, after, rfl, fun p hp => ?_⟩
  simpa using (h p hp).symm

lemma get?_eq_none (h : ∀ p ∈ n, p.1 ≠ key) : n.get? key = none := by
  refine List.lookup_eq_none_iff.mpr fun p hp => ?_
  simpa using (h p hp).symm

lemma put_append (h : ∀ p ∈ before, p.1 ≠ key) :
    put (before ++ (key, a) :: after) key b = before ++ (key, b) :: after := by
  induction before with
  | nil => simp [put]
  | cons p before ih =>
    obtain ⟨k, c⟩ := p
    have hk : k ≠ key := h (k, c) (by simp)
    simp [put, hk, ih fun q hq => h q (by simp [hq])]

lemma erase_append (h : ∀ p ∈ before, p.1 ≠ key) :
    erase (before ++ (key, a) :: after) key = before ++ after := by
  rw [erase, List.eraseP_append_right _ (by simpa using h)]
  simp

lemma erase_eq_self (h : ∀ p ∈ n, p.1 ≠ key) : n.erase key = n :=
  List.eraseP_of_forall_not (by simpa using h)

end Keyed

/-- Rows under the integers in their key field. A null is a key like the others. -/
abbrev Bindings := Keyed (Option Int64) Entity

namespace Table

def bindings (key : String) (rows : List Entity) : Bindings :=
  rows.map fun row => (row.scalars.integer? key, row)

lemma bindings_append (key : String) (rows rows' : List Entity) :
    bindings key (rows ++ rows') = bindings key rows ++ bindings key rows' := List.map_append

lemma keys_bindings (key : String) (rows : List Entity) :
    (bindings key rows).map Prod.fst = keys key rows := by
  simp [bindings, keys]

lemma rows_bindings (key : String) (rows : List Entity) :
    (bindings key rows).map Prod.snd = rows := by
  simp [bindings, Function.comp_def]

end Table

/-! ### Requests -/

/-- What an adapter can be asked. -/
inductive Request where
  | create (tx : Transaction) (e : Entity)
  | update (tx : Transaction) (e : Entity)
  | delete (tx : Transaction) (e : Entity)
  | read (p : Expr)

/-- What it answers where it does not fail. -/
inductive Answer where
  | created (e : Entity)
  | done
  | found (rows : List Entity)

/-- The entity of a request is a well-typed one. -/
def Request.Typed (d : Declaration) : Request → Prop
  | create _ e | update _ e | delete _ e => d.Fits e.scalars
  | read _ => True

/-- Ask an adapter. -/
def Adapter.serve (a : Adapter) : Request → Step Error Answer
  | .create tx e => return .created (← a.create tx e)
  | .update tx e => do
    a.update tx e
    return .done
  | .delete tx e => do
    a.delete tx e
    return .done
  | .read p => return .found (← a.read p)

/-- Requests in turn, errors passed over, each with what came of it. -/
def Adapter.serveAll (a : Adapter) :
    List Request → World → List (Request × Except Error Answer) × World
  | [], w => ([], w)
  | q :: qs, w =>
    let (x, w) := a.serve q w
    let (log, w) := serveAll a qs w
    ((q, x) :: log, w)

namespace Bindings

variable (T : EntityType) (s : Schema)

/-- How a map of entities serves a request: what it answers, and the map that it becomes. -/
inductive Serves : Request → Except Error Answer → Bindings → Bindings → Prop
  /-- A new binding has a key above all others and the scalars of the entity, which bears the key
  from now on. -/
  | created {tx : Transaction} {e e' : Entity} {k : Int64} {m : Bindings}
    (above : Table.Above (m.map Prod.fst) k) (keyed : e' = e.withInteger s.key k)
    (carries : e'.scalars.integer? s.key = some k) (settled : s.isTransient T e' = false) :
    Serves (.create tx e) (.ok (.created e')) m (m ++ [(some k, T.bare e')])
  /-- The key field takes no key above all others. -/
  | exhausted {tx : Transaction} {e : Entity} {err : Error} {m : Bindings}
    (full : ∀ k, Table.Above (m.map Prod.fst) k → ∃ err, T.assign e s.key (.int k) = .error err) :
    Serves (.create tx e) (.error err) m m
  | updated {tx : Transaction} {e row : Entity} {m : Bindings}
    (present : m.get? (e.scalars.integer? s.key) = some row) :
    Serves (.update tx e) (.ok .done) m
      (m.put (e.scalars.integer? s.key) { row with scalars := e.scalars })
  | missed {tx : Transaction} {e : Entity} {m : Bindings}
    (absent : m.get? (e.scalars.integer? s.key) = none) :
    Serves (.update tx e) (.ok .done) m m
  | deleted {tx : Transaction} {e : Entity} {m : Bindings} :
    Serves (.delete tx e) (.ok .done) m (m.erase (e.scalars.integer? s.key))
  | found {p : Expr} {m : Bindings}
    (decided : ∀ row ∈ m.map Prod.snd, ∃ b, p.satisfied T row = .ok b) :
    Serves (.read p) (.ok (.found ((m.map Prod.snd).filter fun row => p.holds T row))) m m
  /-- On some row the predicate fails. -/
  | undecided {p : Expr} {err : Error} {m : Bindings}
    (fails : ∃ row ∈ m.map Prod.snd, p.satisfied T row = .error err) :
    Serves (.read p) (.error err) m m

/-- A map serves requests in turn, and its keys are distinct at all times. -/
inductive ServesAll : List (Request × Except Error Answer) → Bindings → Bindings → Prop
  | nil {m : Bindings} (distinct : m.Distinct) : ServesAll [] m m
  | cons {q : Request} {x : Except Error Answer} {log : List (Request × Except Error Answer)}
    {m m' m'' : Bindings} (distinct : m.Distinct) (head : Serves T s q x m m')
    (tail : ServesAll log m' m'') : ServesAll ((q, x) :: log) m m''

end Bindings

/-! ### One request -/

namespace Table

variable {d : Declaration} {s : Schema} {rows : List Entity} {e row : Entity}

/-- An outcome is how the map serves the request, and leaves a table as it should be. -/
structure Outcome.Serves {α : Type} (d : Declaration) (s : Schema) (q : Request)
    (answer : α → Answer) (rows : List Entity) (o : Outcome α) : Prop where
  serves : Bindings.Serves d.type s q (o.result.map answer) (bindings s.key rows)
    (bindings s.key o.rows)
  wellKeyed : WellKeyed d s.key o.rows

lemma WellKeyed.distinct_bindings (h : WellKeyed d s.key rows) :
    (bindings s.key rows).Distinct := by
  rw [Keyed.Distinct, keys_bindings]
  exact h.distinct

lemma create_serves (hs : s.IsOf d.type) (hg : s.generated = true) (hk : d.HasInteger s.key)
    (h : WellKeyed d s.key rows) (he : d.Fits e.scalars) (tx : Transaction) :
    (create d.type s e rows).Serves d s (.create tx e) .created rows := by
  rcases create_cases hs hg hk h.fits he with ⟨k, habove, hfits, hcreate⟩ | ⟨err, hcreate, hfull⟩
  · have hkey : (e.withInteger s.key k).scalars.integer? s.key = some k :=
      Record.integer?_put_self (hk.mem_names he) k
    have hwell : WellKeyed d s.key (rows ++ [d.type.bare (e.withInteger s.key k)]) :=
      h.append hfits hkey habove
    rw [hcreate]
    refine ⟨?_, hwell⟩
    dsimp only
    rw [bindings_append]
    have hlast : bindings s.key [d.type.bare (e.withInteger s.key k)] =
        [(some k, d.type.bare (e.withInteger s.key k))] := by
      rw [← hkey]
      rfl
    rw [hlast]
    exact .created (by rwa [keys_bindings]) rfl hkey (isTransient_eq_false hfits hk hkey habove.pos)
  · rw [hcreate]
    refine ⟨.exhausted fun k hk' => ?_, h⟩
    obtain ⟨kind, hkind, hint⟩ := hk
    rw [keys_bindings] at hk'
    exact ⟨_, Declaration.assign_of_not_takes hkind (hfull kind hkind k hk') e⟩

/-- The row under a key, between those under others, or none. -/
lemma find?_cases (hrows : ∀ row ∈ rows, d.Fits row.scalars) (hk : d.HasInteger s.key)
    (i : Option Int64) :
    (find? d.type s.key (.ofInteger? i) rows = none ∧ ∀ p ∈ bindings s.key rows, p.1 ≠ i) ∨
      ∃ before row after, find? d.type s.key (.ofInteger? i) rows = some (before.length, row) ∧
        rows = before ++ row :: after ∧ row.scalars.integer? s.key = i ∧
        ∀ p ∈ bindings s.key before, p.1 ≠ i := by
  rcases hfind : find? d.type s.key (.ofInteger? i) rows with _ | ⟨n, row⟩
  · refine .inl ⟨rfl, fun p hp => ?_⟩
    obtain ⟨row, hrow, rfl⟩ := List.mem_map.mp hp
    have hne := find?_eq_none hfind row hrow
    rw [(hrows row hrow).hasKey_eq hk] at hne
    exact of_decide_eq_false hne
  · obtain ⟨hkey, before, after, rfl, rfl, hbefore⟩ := find?_eq_some_append hfind
    rw [(hrows row (by simp)).hasKey_eq hk] at hkey
    refine .inr ⟨before, row, after, rfl, rfl, of_decide_eq_true hkey, fun p hp => ?_⟩
    obtain ⟨x, hx, rfl⟩ := List.mem_map.mp hp
    have hne := hbefore x hx
    rw [(hrows x (by simp [hx])).hasKey_eq hk] at hne
    exact of_decide_eq_false hne

lemma bindings_middle (key : String) (before after : List Entity) (row : Entity) :
    bindings key (before ++ row :: after) =
      bindings key before ++ (row.scalars.integer? key, row) :: bindings key after := by
  rw [bindings_append]
  rfl

/-- An update finds no row of its key, or stores the scalars of the entity in the first. -/
lemma update_cases (hs : s.IsOf d.type) (hk : d.HasInteger s.key)
    (hrows : ∀ row ∈ rows, d.Fits row.scalars) (he : d.Fits e.scalars) :
    (update d.type s e rows = ⟨.ok (), rows, none⟩ ∧
        ∀ p ∈ bindings s.key rows, p.1 ≠ e.scalars.integer? s.key) ∨
      ∃ before row after, rows = before ++ row :: after ∧
        row.scalars.integer? s.key = e.scalars.integer? s.key ∧
        (∀ p ∈ bindings s.key before, p.1 ≠ e.scalars.integer? s.key) ∧
        update d.type s e rows = ⟨.ok (), before ++ { row with scalars := e.scalars } :: after,
          some (.updated before.length row)⟩ := by
  have hkey : s.keyOf d.type e = .ok (.ofInteger? (e.scalars.integer? s.key)) := he.read_integer hk
  rcases find?_cases hrows hk (e.scalars.integer? s.key) with
    ⟨hfind, hnone⟩ | ⟨before, row, after, hfind, rfl, hrow, hbefore⟩
  · exact .inl ⟨by simp only [update, hkey, hfind], hnone⟩
  · have hover := Schema.overwrite_eq hs hk he (hrows row (by simp)) hrow
    refine .inr ⟨before, row, after, rfl, hrow, hbefore, ?_⟩
    simp only [update, hkey, hfind, hover]
    simp

/-- A deletion finds no row of its key, or takes out the first. -/
lemma delete_cases (hk : d.HasInteger s.key) (hrows : ∀ row ∈ rows, d.Fits row.scalars)
    (he : d.Fits e.scalars) :
    (delete d.type s e rows = ⟨.ok (), rows, none⟩ ∧
        ∀ p ∈ bindings s.key rows, p.1 ≠ e.scalars.integer? s.key) ∨
      ∃ before row after, rows = before ++ row :: after ∧
        row.scalars.integer? s.key = e.scalars.integer? s.key ∧
        (∀ p ∈ bindings s.key before, p.1 ≠ e.scalars.integer? s.key) ∧
        delete d.type s e rows =
          ⟨.ok (), before ++ after, some (.deleted before.length row)⟩ := by
  have hkey : s.keyOf d.type e = .ok (.ofInteger? (e.scalars.integer? s.key)) := he.read_integer hk
  rcases find?_cases hrows hk (e.scalars.integer? s.key) with
    ⟨hfind, hnone⟩ | ⟨before, row, after, hfind, rfl, hrow, hbefore⟩
  · exact .inl ⟨by simp only [delete, hkey, hfind], hnone⟩
  · refine .inr ⟨before, row, after, rfl, hrow, hbefore, ?_⟩
    simp only [delete, hkey, hfind]
    rw [List.eraseIdx_append_of_length_le (Nat.le_refl _), Nat.sub_self, List.eraseIdx_cons_zero]

lemma update_serves (hs : s.IsOf d.type) (hk : d.HasInteger s.key) (h : WellKeyed d s.key rows)
    (he : d.Fits e.scalars) (tx : Transaction) :
    (update d.type s e rows).Serves d s (.update tx e) (fun _ => .done) rows := by
  rcases update_cases hs hk h.fits he with
    ⟨hupdate, hnone⟩ | ⟨before, row, after, rfl, hrow, hbefore, hupdate⟩
  · rw [hupdate]
    exact ⟨.missed (Keyed.get?_eq_none hnone), h⟩
  · have hput : bindings s.key (before ++ { row with scalars := e.scalars } :: after) =
        (bindings s.key (before ++ row :: after)).put (e.scalars.integer? s.key)
          { row with scalars := e.scalars } := by
      rw [bindings_middle, bindings_middle, hrow, Keyed.put_append hbefore]
    rw [hupdate]
    refine ⟨?_, fun x hx => ?_, ?_⟩
    · dsimp only
      rw [hput]
      refine .updated ?_
      rw [bindings_middle, hrow, Keyed.get?_append hbefore]
    · rcases List.mem_append.mp hx with hx | hx
      · exact h.fits x (by simp [hx])
      · rcases List.mem_cons.mp hx with rfl | hx
        · exact he
        · exact h.fits x (by simp [hx])
    · have hdistinct := h.distinct
      simpa [keys, hrow] using hdistinct

lemma delete_serves (hk : d.HasInteger s.key) (h : WellKeyed d s.key rows) (he : d.Fits e.scalars)
    (tx : Transaction) :
    (delete d.type s e rows).Serves d s (.delete tx e) (fun _ => .done) rows := by
  rcases delete_cases hk h.fits he with
    ⟨hdelete, hnone⟩ | ⟨before, row, after, rfl, hrow, hbefore, hdelete⟩
  · have hserves : Bindings.Serves d.type s (.delete tx e) (.ok .done) (bindings s.key rows)
      ((bindings s.key rows).erase (e.scalars.integer? s.key)) := .deleted
    rw [Keyed.erase_eq_self hnone] at hserves
    rw [hdelete]
    exact ⟨hserves, h⟩
  · have herase : bindings s.key (before ++ after) =
        (bindings s.key (before ++ row :: after)).erase (e.scalars.integer? s.key) := by
      rw [bindings_append, bindings_middle, hrow, Keyed.erase_append hbefore]
    have hsub : (before ++ after).Sublist (before ++ row :: after) :=
      (List.Sublist.refl before).append (List.sublist_cons_self row after)
    rw [hdelete]
    refine ⟨?_, fun x hx => h.fits x (hsub.subset hx), h.distinct.sublist (hsub.map _)⟩
    dsimp only
    rw [herase]
    exact .deleted

lemma select_serves (T : EntityType) (s : Schema) (p : Expr) (rows : List Entity) :
    Bindings.Serves T s (.read p) ((select T p rows).map .found) (bindings s.key rows)
      (bindings s.key rows) := by
  rcases select_cases T p rows with ⟨hall, hselect⟩ | ⟨err, hselect, hrow⟩
  · rw [hselect]
    have hfound := Bindings.Serves.found (T := T) (s := s) (m := bindings s.key rows) (p := p)
      (by rwa [rows_bindings])
    rwa [rows_bindings] at hfound
  · rw [hselect]
    exact .undecided (by rwa [rows_bindings])

end Table

/-! ### Any requests -/

namespace Adapter

variable {Γ : Declarations} {t : MemoryTable} {a : Adapter} {q : Request} {w : World}

/-- After the request the table is the map as it has served it; no other table is changed. -/
structure Follows (Γ : Declarations) (t : MemoryTable) (a : Adapter) (q : Request) (w : World)
    (x : Except Error Answer) (w' : World) : Prop where
  serves : Bindings.Serves a.type a.schema q x (Table.bindings a.schema.key (w.rows t.name))
    (Table.bindings a.schema.key (w'.rows t.name))
  wellKeyed : Table.WellKeyed (Γ.of a.type.name) a.schema.key (w'.rows t.name)
  others : ∀ other, other ≠ t.name → w'.rows other = w.rows other

lemma answer_apply {α : Type} (x : Step Error α) (answer : α → Answer) (w : World) :
    (x >>= fun r => pure (answer r)) w = ((x w).1.map answer, (x w).2) := by
  rw [bind_apply]
  rcases x w with ⟨_ | _, _⟩ <;> rfl

/-- A write that no guard refuses is that of the table. -/
lemma follows_write {α : Type} (ha : a.Generates Γ t) (hg : a.guard = none) (op : Operation)
    (e : Entity) (tx : Transaction) {answer : α → Answer} {f : List Entity → Table.Outcome α}
    {x : Step Error α} (hx : x = a.announce op e >>= fun _ => t.write tx f)
    (hf : (f (w.rows t.name)).Serves (Γ.of a.type.name) a.schema q answer (w.rows t.name)) :
    a.Follows Γ t q w ((x >>= fun r => pure (answer r)) w).1
      ((x >>= fun r => pure (answer r)) w).2 := by
  have hann : a.announce op e w =
      (.ok (), w.note (.write none op a.type.name (a.type.read? e a.schema.key) e)) := by
    unfold announce
    rw [hg]
    rfl
  have hfst : (x w).1 = (f (w.rows t.name)).result := by
    rw [hx, bind_of_ok hann]
    rfl
  have hrows : (x w).2.rows = Function.update w.rows t.name (f (w.rows t.name)).rows := by
    rw [hx, bind_of_ok hann]
    exact t.rows_write tx f _
  have hT : (Γ.of a.type.name).type = a.type := ha.declared.type.symm
  have hserves := hf.serves
  rw [hT] at hserves
  rw [answer_apply]
  refine ⟨?_, ?_, fun other ho => ?_⟩
  · rw [hfst, hrows, Function.update_self]
    exact hserves
  · rw [hrows, Function.update_self]
    exact hf.wellKeyed
  · rw [hrows, Function.update_of_ne ho]

/-- What the adapter does on one request, the map does. -/
lemma serve_follows (ha : a.Generates Γ t) (hg : a.guard = none)
    (hw : Table.WellKeyed (Γ.of a.type.name) a.schema.key (w.rows t.name))
    (hq : q.Typed (Γ.of a.type.name)) : a.Follows Γ t q w (a.serve q w).1 (a.serve q w).2 := by
  have hT : a.type = (Γ.of a.type.name).type := ha.declared.type
  have hs : a.schema.IsOf (Γ.of a.type.name).type := hT ▸ ha.declared.schema
  cases q with
  | create tx e =>
    refine follows_write ha hg .insert e tx (x := a.create tx e) ?_
      (Table.create_serves hs ha.generated ha.key hw hq tx)
    rw [create, ha.storage, ← hT]
  | update tx e =>
    refine follows_write ha hg .update e tx (x := a.update tx e) ?_
      (Table.update_serves hs ha.key hw hq tx)
    rw [update, ha.storage, ← hT]
  | delete tx e =>
    refine follows_write ha hg .delete e tx (x := a.delete tx e) ?_
      (Table.delete_serves ha.key hw hq tx)
    rw [delete, ha.storage, ← hT]
  | read p =>
    have hread : a.serve (.read p) w = ((Table.select a.type p (w.rows t.name)).map .found, w) := by
      rw [serve, answer_apply, read, ha.storage]
      rfl
    rw [hread]
    exact ⟨Table.select_serves a.type a.schema p _, hw, fun _ _ => rfl⟩

/-- **A table refines a map.** Whatever an adapter is asked, one request after another, its table is
at all times the map that has served the same requests with the same answers, and the keys of the
map are distinct. No other table is changed. -/
theorem serveAll_refines (ha : a.Generates Γ t) (hg : a.guard = none) {qs : List Request}
    (hq : ∀ q ∈ qs, q.Typed (Γ.of a.type.name))
    (hw : Table.WellKeyed (Γ.of a.type.name) a.schema.key (w.rows t.name)) :
    Bindings.ServesAll a.type a.schema (a.serveAll qs w).1
        (Table.bindings a.schema.key (w.rows t.name))
        (Table.bindings a.schema.key ((a.serveAll qs w).2.rows t.name)) ∧
      (a.serveAll qs w).1.map Prod.fst = qs ∧
      ∀ other, other ≠ t.name → (a.serveAll qs w).2.rows other = w.rows other := by
  induction qs generalizing w with
  | nil => exact ⟨.nil hw.distinct_bindings, rfl, fun _ _ => rfl⟩
  | cons q qs ih =>
    have hstep := serve_follows ha hg hw (hq q (by simp))
    obtain ⟨hserves, hasked, hothers⟩ := ih (fun q' hq' => hq q' (by simp [hq'])) hstep.wellKeyed
    refine ⟨.cons hw.distinct_bindings hstep.serves hserves, ?_, fun other ho => ?_⟩
    · exact congrArg (q :: ·) hasked
    · exact (hothers other ho).trans (hstep.others other ho)

end Adapter

/-! ### Tickets under the last keys -/

namespace Desk

def ticketType : Declaration where
  name := "Ticket"
  fields := [("ticketId", .optional .int32), ("title", .text)]

def types : Declarations := .ofList [ticketType]

def tickets : Adapter where
  type := ticketType.type
  schema := ⟨"Ticket", [⟨"ticketId", some ⟨.integer, true⟩, .key true⟩,
    ⟨"title", some ⟨.text, false⟩, .scalar⟩], "ticketId", true⟩
  storage := .memory ⟨"tickets", none⟩

lemma tickets_generates : tickets.Generates types ⟨"tickets", none⟩ where
  declared := ⟨rfl, some "ticketId", none, rfl⟩
  storage := rfl
  generated := rfl
  key := ⟨.optional .int32, rfl, rfl⟩

def ticket (id : Option Int32) (title : String) : Entity where
  scalars := [("ticketId", (FieldKind.optional .int32).toValue id), ("title", .text title)]
  children := []

lemma ticket_fits (id : Option Int32) (title : String) :
    ticketType.Fits (ticket id title).scalars :=
  Declaration.fits_of_forall₂ (.cons ⟨rfl, id, rfl⟩ (.cons ⟨rfl, title, rfl⟩ .nil))

/-- Tickets without a key, with one below zero, and with the last one but one. -/
def filed : World where
  tables := [("tickets", [ticket none "lost", ticket (some (-3)) "old",
    ticket (some 2147483646) "late"])]

def titled (title : String) : Expr := .binary .eq (.field "title") (.constant (.text title))

def asked : List Request :=
  [.create .autocommit (ticket (some 7) "last"), .create .autocommit (ticket none "never"),
    .update .autocommit (ticket none "found"), .update .autocommit (ticket (some 5) "nobody"),
    .delete .autocommit (ticket (some (-3)) ""), .read (titled "late"), .read (.field "title")]

/-- The last key is given out, and then no other; the title alone decides nothing. -/
theorem tickets_refine : Bindings.ServesAll tickets.type tickets.schema
    [(.create .autocommit (ticket (some 7) "last"),
        .ok (.created (ticket (some 2147483647) "last"))),
      (.create .autocommit (ticket none "never"),
        .error (.materialization "ticketId" (.int 2147483648))),
      (.update .autocommit (ticket none "found"), .ok .done),
      (.update .autocommit (ticket (some 5) "nobody"), .ok .done),
      (.delete .autocommit (ticket (some (-3)) ""), .ok .done),
      (.read (titled "late"), .ok (.found [ticket (some 2147483646) "late"])),
      (.read (.field "title"), refuse (.valueNotTruth .text))]
    [(none, ticket none "lost"), (some (-3), ticket (some (-3)) "old"),
      (some 2147483646, ticket (some 2147483646) "late")]
    [(none, ticket none "found"), (some 2147483646, ticket (some 2147483646) "late"),
      (some 2147483647, ticket (some 2147483647) "last")] := by
  have htyped : ∀ q ∈ asked, q.Typed ticketType := by
    simp only [asked, List.forall_mem_cons, Request.Typed, List.not_mem_nil, false_implies,
      implies_true, and_true]
    exact ⟨ticket_fits _ _, ticket_fits _ _, ticket_fits _ _, ticket_fits _ _, ticket_fits _ _⟩
  have hkeyed : Table.WellKeyed ticketType "ticketId" (filed.rows "tickets") := by
    have hdistinct : [none, some (-3 : Int64), some 2147483646].Nodup := by decide
    refine ⟨fun row hrow => ?_, hdistinct⟩
    have hrow : row ∈ [ticket none "lost", ticket (some (-3)) "old",
      ticket (some 2147483646) "late"] := hrow
    simp only [List.mem_cons, List.not_mem_nil, or_false] at hrow
    rcases hrow with rfl | rfl | rfl <;> exact ticket_fits _ _
  exact (Adapter.serveAll_refines tickets_generates rfl htyped hkeyed).1

end Desk

end EntityStore
