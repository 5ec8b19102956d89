import EntityStore.Proofs.Coverage
import EntityStore.Proofs.Refusal
import Mathlib.Data.List.Induction
import Mathlib.Data.Sum.Basic

/-!
Taking back creations. A creation is undone by looking for the last row with its key, so the key has
to be found again: a key that is not a number is not the same as any, itself included, and its row
stays.
-/

namespace EntityStore

open Fallible

/-! ### Values that equal themselves -/

namespace Binary64

lemma same_iff {x y : Float} : same x y = true ↔ (place? x).isSome ∧ place? x = place? y := by
  unfold same compare?
  rcases place? x with _ | i
  · simp
  · rcases place? y with _ | j <;> simp

end Binary64

namespace Value

variable {u v w : Value}

/-- A float that is not a number. -/
def isNaN : Value → Bool
  | float x => (Binary64.place? x).isNone
  | _ => false

/-- What values that are the same have in common: their place on the line of doubles, or all that
they are. What is not a number has no mark. -/
def mark? : Value → Option (Value ⊕ Int)
  | float x => (Binary64.place? x).map .inr
  | v => some (.inl v)

lemma same_iff : v.same w = true ↔ v.mark?.isSome ∧ v.mark? = w.mark? := by
  cases v with
  | float x =>
    cases w with
    | float y =>
      rw [same, Binary64.same_iff, mark?, mark?, Option.isSome_map,
        (Option.map_injective Sum.inr_injective).eq_iff]
    | _ => simp [same, mark?]
  | _ =>
    cases w with
    | float y => rcases h : Binary64.place? y <;> simp [same, mark?, h]
    | _ => simp [same, mark?]

lemma same_symm (h : v.same w = true) : w.same v = true := by
  obtain ⟨hsome, heq⟩ := same_iff.mp h
  exact same_iff.mpr ⟨heq ▸ hsome, heq.symm⟩

lemma same_trans (h : u.same v = true) (h' : v.same w = true) : u.same w = true := by
  obtain ⟨hsome, heq⟩ := same_iff.mp h
  exact same_iff.mpr ⟨hsome, heq.trans (same_iff.mp h').2⟩

/-- Each value is the same as itself, but for what is not a number. -/
lemma same_self (v : Value) : v.same v = !v.isNaN := by
  rw [Bool.eq_iff_iff, same_iff]
  cases v <;> simp [mark?, isNaN]

/-- What is not a number is the same as no value. -/
lemma isNaN_of_same (h : v.same w = true) : v.isNaN = false := by
  have hself := same_trans h (same_symm h)
  rw [same_self] at hself
  simpa using hself

end Value

/-! ### Undoing many changes -/

namespace Table

/-- Undo changes of a table, the first of them first. -/
def undoAll (rows : List Entity) (us : List Undo) : List Entity := us.foldl undo rows

variable {T : EntityType} {key : String} {v : Value} {rows news stays : List Entity} {row : Entity}

/-- The row shows something that is not a number in its key field. -/
def keyIsNaN (T : EntityType) (key : String) (row : Entity) : Bool :=
  match T.read? row key with
  | some v => v.isNaN
  | none => false

lemma keyIsNaN_eq (h : T.read? row key = some v) : keyIsNaN T key row = v.isNaN := by
  rw [keyIsNaN, h]

lemma hasKey_self (h : T.read? row key = some v) : hasKey T key v row = !keyIsNaN T key row := by
  rw [keyIsNaN_eq h, hasKey, h]
  exact v.same_self

/-- What is not a number is the key of no row. -/
lemma hasKey_of_isNaN (h : v.isNaN = true) (row : Entity) : hasKey T key v row = false := by
  unfold hasKey
  rcases T.read? row key with _ | w
  · rfl
  · refine Bool.eq_false_iff.mpr fun hsame => ?_
    exact Bool.eq_false_iff.mp (Value.isNaN_of_same (Value.same_symm hsame)) h

/-- A row whose key is not a number is not found. -/
lemma hasKey_of_keyIsNaN (h : keyIsNaN T key row = true) (v : Value) :
    hasKey T key v row = false := by
  unfold keyIsNaN at h
  unfold hasKey
  rcases hw : T.read? row key with _ | w
  · rfl
  · rw [hw] at h
    refine Bool.eq_false_iff.mpr fun hsame => ?_
    exact Bool.eq_false_iff.mp (Value.isNaN_of_same hsame) h

/-- A creation is undone by taking out its row, if its key is found again. -/
lemma undo_created_of_key (hrow : hasKey T key v row = true)
    (hstays : ∀ r ∈ stays, hasKey T key v r = false) :
    undo (rows ++ row :: stays) (.created T key v) = rows ++ stays := by
  have hreverse : (rows ++ row :: stays).reverse = stays.reverse ++ row :: rows.reverse := by simp
  rw [undo, hreverse, List.eraseP_append_right _ (by simpa using hstays),
    List.eraseP_cons_of_pos hrow]
  simp

lemma undo_created_of_not_key (hrows : ∀ r ∈ rows, hasKey T key v r = false) :
    undo rows (.created T key v) = rows := by
  rw [undo, List.eraseP_of_forall_not (by simpa using hrows), List.reverse_reverse]

/-- What takes back the creation of a row. -/
def retraction (T : EntityType) (key : String) (row : Entity) : Undo :=
  .created T key ((T.read? row key).getD .null)

/-- Creations are taken back, the last of them first. What stays are the rows whose key is not a
number, and what stands behind them. -/
lemma undoAll_retraction (hnews : ∀ row ∈ news, (T.read? row key).isSome)
    (hstays : ∀ row ∈ stays, keyIsNaN T key row = true) :
    undoAll (rows ++ news ++ stays) (news.reverse.map (retraction T key)) =
      rows ++ news.filter (keyIsNaN T key) ++ stays := by
  induction news using List.reverseRecOn generalizing stays with
  | nil => simp [undoAll]
  | append_singleton news row ih =>
    have hnews' : ∀ r ∈ news, (T.read? r key).isSome := fun r hr => hnews r (by simp [hr])
    obtain ⟨v, hv⟩ := Option.isSome_iff_exists.mp (hnews row (by simp))
    have hself := hasKey_self hv
    have hretract : retraction T key row = .created T key v := by rw [retraction, hv]; rfl
    have hkeyless : ∀ r ∈ stays, hasKey T key v r = false :=
      fun r hr => hasKey_of_keyIsNaN (hstays r hr) v
    have hstep : undoAll (rows ++ (news ++ [row]) ++ stays)
        ((news ++ [row]).reverse.map (retraction T key)) =
          undoAll (undo (rows ++ (news ++ [row]) ++ stays) (.created T key v))
            (news.reverse.map (retraction T key)) := by
      rw [List.reverse_append, List.reverse_singleton, List.singleton_append, List.map_cons,
        hretract]
      rfl
    rw [hstep]
    rcases hnan : keyIsNaN T key row
    · have hundo : undo (rows ++ (news ++ [row]) ++ stays) (.created T key v) =
          rows ++ news ++ stays := by
        rw [hnan] at hself
        have hmiddle : rows ++ (news ++ [row]) ++ stays = (rows ++ news) ++ row :: stays := by simp
        rw [hmiddle, undo_created_of_key hself hkeyless]
      rw [hundo, ih hnews' hstays]
      simp [hnan]
    · rw [undo_created_of_not_key fun r _ => hasKey_of_isNaN ((keyIsNaN_eq hv).symm.trans hnan) r]
      have hmiddle : rows ++ (news ++ [row]) ++ stays = rows ++ news ++ (row :: stays) := by simp
      rw [hmiddle, ih hnews' (List.forall_mem_cons.mpr ⟨hnan, hstays⟩)]
      simp [hnan]

end Table

namespace World

variable {w : World} {b : BackendId} {table : String} {us : List Undo}

lemma rows_undoAll_own (w : World) (table : String) (us : List Undo) :
    ((us.map (Change.mk table)).foldl undo w).rows =
      Function.update w.rows table (Table.undoAll (w.rows table) us) := by
  induction us generalizing w with
  | nil => simp [Table.undoAll]
  | cons u us ih =>
    rw [List.map_cons, List.foldl_cons, ih, rows_undo]
    simp [Table.undoAll]

/-- The changes of a table that the open journal of a backend holds, newest first; no others are in
it. -/
def Notes (w : World) (b : BackendId) (table : String) (us : List Undo) : Prop :=
  w.Holds b (us.map (Change.mk table))

lemma Notes.journal {t : MemoryTable} (h : w.Notes b t.name us) (ht : t.backend = some b)
    (tx : Transaction) (undo : Option Undo) :
    (t.journal tx undo w).Notes b t.name (if tx.includes b then undo.toList ++ us else us) := by
  have hholds := Holds.journal h ht tx undo
  rw [Notes, apply_ite (List.map (Change.mk t.name)), List.map_append]
  exact hholds

/-- A rollback takes back all that the journal notes, and closes it. -/
lemma Notes.rollback (h : w.Notes b table us) :
    ∃ w', Transaction.rollback ⟨some b⟩ w = (.ok (), w') ∧
      w'.rows = Function.update w.rows table (Table.undoAll (w.rows table) us) := by
  refine ⟨_, call_journal h rfl, ?_⟩
  have hclosed : (w.withBackend b (.journal none)).rows = w.rows := rfl
  exact (rows_undoAll_congr hclosed _).trans (rows_undoAll_own w table us)

lemma notes_begin {b : String} {w' : World} {tx : Transaction}
    (hclosed : w.backends.get? (.memory b) = some (.journal none))
    (h : Transaction.begin (.memory b) w = (.ok tx, w')) (table : String) :
    tx = ⟨some (.memory b)⟩ ∧ w'.rows = w.rows ∧ w'.Notes (.memory b) table [] := by
  have hc : Backend.callJournal (.memory b) .begin none w =
      .ok (w.withBackend (.memory b) (.journal (some []))) := rfl
  have hbegin : Transaction.begin (.memory b) w = _ := bind_of_ok (call_journal hclosed hc)
  cases hbegin.symm.trans h
  exact ⟨rfl, rfl, Keyed.get?_put_self _ _ _⟩

end World

namespace Adapter

variable {a : Adapter} {t : MemoryTable} {b : BackendId} {tx : Transaction} {op : Operation}
  {e e' : Entity} {es es' : List Entity} {w w' : World} {us : List Undo}

/-- A write is stopped when it is announced, or it is that of the table; the journal notes it if the
transaction is its own. -/
lemma write_noted (hm : a.storage = .memory t) (ht : t.backend = some b)
    (hw : w.Notes b t.name us) (tx : Transaction) (op : Operation) (e : Entity) :
    ((∃ err, (a.write tx op e w).1 = .error err) ∧ (a.write tx op e w).2.rows = w.rows ∧
        (a.write tx op e w).2.Notes b t.name us) ∨
      (a.write tx op e w).1 = (Table.write a.type a.schema op e (w.rows t.name)).result ∧
        (a.write tx op e w).2.rows = Function.update w.rows t.name
          (Table.write a.type a.schema op e (w.rows t.name)).rows ∧
        (a.write tx op e w).2.Notes b t.name
          (if tx.includes b then
            (Table.write a.type a.schema op e (w.rows t.name)).undo.toList ++ us else us) := by
  rw [write_memory hm]
  rcases hann : a.announce op e w with ⟨err | _, w₁⟩
  · obtain ⟨hrows, hbackends⟩ := announce_keeps hann
    rw [bind_of_error hann]
    refine .inl ⟨⟨err, rfl⟩, hrows, ?_⟩
    rw [World.Notes, World.Holds, hbackends]
    exact hw
  · obtain ⟨hrows, hbackends⟩ := announce_keeps hann
    rw [bind_of_ok hann, ← hrows]
    refine .inr ⟨rfl, ?_, ?_⟩
    · exact t.rows_write tx _ w₁
    · refine World.Notes.journal (w := w₁.withRows t.name _) ?_ ht tx _
      rw [World.Notes, World.Holds, World.backends_withRows, hbackends]
      exact hw

/-! ### Creations in a transaction -/

lemma create_noted (hm : a.storage = .memory t) (ht : t.backend = some b)
    (hw : w.Notes b t.name us) (h : a.create ⟨some b⟩ e w = (.ok e', w')) :
    ∃ row, a.schema.snapshot a.type e' = .ok row ∧ (a.type.read? row a.schema.key).isSome ∧
      w'.rows = Function.update w.rows t.name (w.rows t.name ++ [row]) ∧
      w'.Notes b t.name (Table.retraction a.type a.schema.key row :: us) := by
  have h : a.write ⟨some b⟩ .insert e w = (.ok e', w') := h
  rcases write_noted hm ht hw ⟨some b⟩ .insert e with ⟨⟨err, herr⟩, -⟩ | ⟨hresult, hrows, hnotes⟩
  · rw [h] at herr
    cases herr
  · rw [h] at hresult hrows hnotes
    rw [if_pos (by simp [Transaction.includes])] at hnotes
    dsimp only [Table.write] at hresult hrows hnotes
    unfold Table.create at hresult hrows hnotes
    rcases hc : Table.creation a.type a.schema (w.rows t.name) e with err | c
    · rw [hc] at hresult
      cases hresult
    · rw [hc] at hresult hrows hnotes
      cases hresult
      obtain ⟨-, hrow, hkey⟩ := Table.creation_eq_ok hc
      have hread : a.type.read? c.row a.schema.key = some c.key := EntityType.read_eq_ok hkey
      refine ⟨c.row, hrow, by rw [hread]; rfl, hrows, ?_⟩
      rw [Table.retraction, hread]
      exact hnotes

/-- Creations that go through in a transaction add the stored fields of what they return, with the
keys they are found under, and the journal notes each. -/
lemma creates_noted (hm : a.storage = .memory t) (ht : t.backend = some b)
    (hw : w.Notes b t.name us) (h : es.mapM (a.create ⟨some b⟩) w = (.ok es', w')) :
    ∃ news, w'.rows = Function.update w.rows t.name (w.rows t.name ++ news) ∧
      w'.Notes b t.name (news.reverse.map (Table.retraction a.type a.schema.key) ++ us) ∧
      (∀ row ∈ news, (a.type.read? row a.schema.key).isSome) ∧
      List.Forall₂ (fun e row => a.schema.snapshot a.type e = .ok row) es' news := by
  induction es generalizing w us es' with
  | nil =>
    cases h
    exact ⟨[], by simp, hw, by simp, .nil⟩
  | cons e es ih =>
    rw [List.mapM_cons] at h
    obtain ⟨e₁, w₁, hcreate, h⟩ := bind_eq_ok.mp h
    obtain ⟨es₁, w₂, hrest, h⟩ := bind_eq_ok.mp h
    cases h
    obtain ⟨row, hrow, hkey, hrows, hnotes⟩ := create_noted hm ht hw hcreate
    obtain ⟨news, hrows', hnotes', hkeys, hnews⟩ := ih hnotes hrest
    refine ⟨row :: news, ?_, ?_, List.forall_mem_cons.mpr ⟨hkey, hkeys⟩, .cons hrow hnews⟩
    · rw [hrows', hrows]
      simp
    · simpa using hnotes'

/-- **Creations rolled back.** Creations that go through in a transaction add one row each, and a
rollback takes out the rows whose key is found again: all but those whose key is not a number, which
stay in their order. So the tables are as they were exactly if no key created is such. -/
theorem rollback_creates {b : String} (hm : a.storage = .memory t) (ht : t.journalName = some b)
    (hclosed : w.backends.get? (.memory b) = some (.journal none)) {w₁ w₂ : World}
    (hbegin : Transaction.begin (.memory b) w = (.ok tx, w₁))
    (hcreates : es.mapM (a.create tx) w₁ = (.ok es', w₂)) :
    ∃ news w₃, List.Forall₂ (fun e row => a.schema.snapshot a.type e = .ok row) es' news ∧
      w₂.rows = Function.update w.rows t.name (w.rows t.name ++ news) ∧
      tx.rollback w₂ = (.ok (), w₃) ∧
      w₃.rows = Function.update w.rows t.name
        (w.rows t.name ++ news.filter (Table.keyIsNaN a.type a.schema.key)) ∧
      (w₃.rows = w.rows ↔ ∀ row ∈ news, Table.keyIsNaN a.type a.schema.key row = false) := by
  obtain ⟨rfl, hrows₁, hnotes₁⟩ := World.notes_begin hclosed hbegin t.name
  have hbackend : t.backend = some (.memory b) := by rw [MemoryTable.backend, ht]; rfl
  obtain ⟨news, hrows₂, hnotes₂, hkeys, hnews⟩ := creates_noted hm hbackend hnotes₁ hcreates
  obtain ⟨w₃, hroll, hrows₃⟩ := hnotes₂.rollback
  rw [hrows₁] at hrows₂
  have hundo : Table.undoAll (w.rows t.name ++ news ++ [])
      (news.reverse.map (Table.retraction a.type a.schema.key)) =
        w.rows t.name ++ news.filter (Table.keyIsNaN a.type a.schema.key) ++ [] :=
    Table.undoAll_retraction hkeys (by simp)
  rw [List.append_nil, List.append_nil] at hundo
  have hrows : w₃.rows = Function.update w.rows t.name
      (w.rows t.name ++ news.filter (Table.keyIsNaN a.type a.schema.key)) := by
    rw [hrows₃, hrows₂, Function.update_self, Function.update_idem, List.append_nil, hundo]
  refine ⟨news, w₃, hnews, hrows₂, hroll, hrows, ?_⟩
  rw [hrows, Function.update_eq_self_iff, List.append_right_eq_self, List.filter_eq_nil_iff]
  simp only [Bool.not_eq_true]

end Adapter

/-! ### Stamps under floats -/

namespace Post

def stampType : Declaration where
  name := "Stamp"
  fields := [("face", .optional .float), ("motif", .text)]

def stamps : Adapter where
  type := stampType.type
  schema := ⟨"Stamp", [⟨"face", some ⟨.float, true⟩, .key false⟩,
    ⟨"motif", some ⟨.text, false⟩, .scalar⟩], "face", false⟩
  storage := .memory ⟨"stamps", some "post"⟩

def stamp (face : Option Float) (motif : String) : Entity where
  scalars := [("face", (FieldKind.optional .float).toValue face), ("motif", .text motif)]
  children := []

/-- One stamp, without a face value. -/
def album : World where
  tables := [("stamps", [stamp none "crown"])]
  backends := [(.memory "post", .journal none)]

/-- The transaction is open. -/
def album₁ : World := (Transaction.begin (.memory "post") album).2

def tx : Transaction := ⟨some (.memory "post")⟩

def nan : Float := Float.ofBits 0x7FF8000000000000

/-- Stamps under equal keys, one without a face value, and two under what is not a number. -/
def bought : List Entity :=
  [stamp (some 0.5) "rose", stamp (some nan) "blot", stamp none "lion", stamp (some 0.5) "thistle",
    stamp (some nan) "smudge"]

/-- The stamps are in. -/
def album₂ : World := (bought.mapM (stamps.create tx) album₁).2

lemma bought_created : bought.mapM (stamps.create tx) album₁ = (.ok bought, album₂) := rfl

/-- Two stamps under what is not a number stay; the others are taken out, equal keys or not. -/
theorem stamps_retracted : ∃ w, album₂.rows "stamps" = stamp none "crown" :: bought ∧
    tx.rollback album₂ = (.ok (), w) ∧
    w.rows "stamps" = [stamp none "crown", stamp (some nan) "blot", stamp (some nan) "smudge"] := by
  have hmemory : stamps.storage = .memory ⟨"stamps", some "post"⟩ := rfl
  have hbegin : Transaction.begin (.memory "post") album = (.ok tx, album₁) := rfl
  obtain ⟨news, w, hnews, hrows, hroll, hrows', -⟩ :=
    Adapter.rollback_creates hmemory rfl rfl hbegin bought_created
  obtain rfl : news = bought := by
    have hadded := congrFun hrows "stamps"
    rw [Function.update_self] at hadded
    exact (List.append_cancel_left (hadded.symm.trans (by rfl : _ = album.rows "stamps" ++ bought)))
  refine ⟨w, rfl, hroll, ?_⟩
  rw [hrows', Function.update_self]
  rfl

/-- A creation that a rollback does not take back. -/
theorem blot_kept : ∃ w w', Transaction.begin (.memory "post") album = (.ok tx, album₁) ∧
    stamps.create tx (stamp (some nan) "blot") album₁ = (.ok (stamp (some nan) "blot"), w) ∧
    tx.rollback w = (.ok (), w') ∧
    w'.rows "stamps" = [stamp none "crown", stamp (some nan) "blot"] ∧
    w'.rows "stamps" ≠ album.rows "stamps" := by
  refine ⟨(stamps.create tx (stamp (some nan) "blot") album₁).2,
    (tx.rollback (stamps.create tx (stamp (some nan) "blot") album₁).2).2, rfl, rfl, rfl, rfl, ?_⟩
  intro h
  have hlength := congrArg List.length h
  cases hlength

end Post

end EntityStore
