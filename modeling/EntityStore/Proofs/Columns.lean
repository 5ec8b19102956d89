import EntityStore.Proofs.Keys
import EntityStore.Proofs.Timestamps

/-!
Rows of a database and the entities they stand for. A row that holds an entity gives it back,
whatever the order of its columns, the case of their names and the columns beside them, with its
dates and times as their texts say them; a row that lacks a column, or has a value in it that the
field does not take, is what the read fails with.
-/

namespace EntityStore

open Calendar Fallible Sql

/-! ### Values in columns -/

/-- A value as a column keeps it: a database has numbers for the bools and texts for the dates. -/
def Value.inColumn : Value → Value
  | bool b => .int (if b then 1 else 0)
  | dateTime t => .text t.text
  | v => v

/-- A value as its text says it, if there is a text for it in a column. -/
def Value.asWritten : Value → Value
  | dateTime t => .dateTime t.asWritten
  | v => v

@[simp] lemma Value.isNull_inColumn (v : Value) : v.inColumn.isNull = v.isNull := by
  cases v <;> rfl

@[simp] lemma Value.isNull_asWritten (v : Value) : v.asWritten.isNull = v.isNull := by
  cases v <;> rfl

lemma Value.asWritten_of_regular {v : Value} (h : ∀ t, v = .dateTime t → t.time.Regular) :
    v.asWritten = v := by
  cases v with
  | dateTime t => exact congrArg dateTime (t.asWritten_eq_iff.mpr (h t rfl))
  | _ => rfl

namespace FieldKind

/-- A field reads the value it shows from a column as from what the text of the value says. -/
lemma ofValue?_inColumn (k : FieldKind) (c : k.Content) :
    k.ofValue? (k.toValue c).inColumn = k.ofValue? (k.toValue c).asWritten := by
  induction k with
  | bool => cases c <;> rfl
  | dateTime => exact DateTime.ofText?_text c
  | date => exact congrArg (Option.map DateTime.date) (DateTime.ofText?_text _)
  | optional k ih =>
    rcases c with _ | c
    · rfl
    · have hv : (optional k).toValue (some c) = k.toValue c := rfl
      rw [hv, ofValue?, ofValue?, Value.isNull_inColumn, Value.isNull_asWritten, ih c]
  | _ => rfl

/-- What the text of a value says the field shows as well: no date has a leap second. -/
lemma Shows.asWritten {k : FieldKind} {v : Value} (h : k.Shows v) : k.Shows v.asWritten := by
  obtain ⟨c, rfl⟩ := h
  induction k with
  | dateTime => exact ⟨DateTime.asWritten c, rfl⟩
  | date => exact ⟨c, congrArg Value.dateTime (DateTime.asWritten_atMidnight c)⟩
  | optional k ih =>
    rcases c with _ | c
    · exact ⟨none, rfl⟩
    · obtain ⟨c', hc'⟩ := ih c
      exact ⟨some c', hc'⟩
  | _ => exact ⟨c, rfl⟩

lemma stored_inColumn {k : FieldKind} {v : Value} {field : String} (h : k.Shows v) :
    k.stored field v.inColumn = .ok v.asWritten := by
  obtain ⟨c', hc'⟩ := h.asWritten
  obtain ⟨c, rfl⟩ := h
  obtain ⟨c'', hread, hshow⟩ := k.ofValue?_toValue c'
  rw [stored, ofValue?_inColumn, hc', hread, ← hshow]

end FieldKind

/-- The entity with its dates and times as their texts say them. -/
def Entity.asWritten (e : Entity) : Entity :=
  { e with scalars := e.scalars.map fun p => (p.1, p.2.asWritten) }

/-- No field of the entity holds a leap second within a minute. -/
def Entity.Regular (e : Entity) : Prop := ∀ p ∈ e.scalars, ∀ t, p.2 = .dateTime t → t.time.Regular

lemma Entity.Regular.asWritten_eq {e : Entity} (h : e.Regular) : e.asWritten = e := by
  have hscalars : e.scalars.map (fun p => (p.1, p.2.asWritten)) = e.scalars.map id :=
    List.map_congr_left fun p hp => Prod.ext rfl (Value.asWritten_of_regular (h p hp))
  obtain ⟨scalars, children⟩ := e
  rw [asWritten, hscalars, List.map_id]

lemma Declaration.Fits.asWritten {d : Declaration} {e : Entity} (h : d.Fits e.scalars) :
    d.Fits e.asWritten.scalars where
  names := by
    rw [← h.names, Entity.asWritten, List.map_map]
    rfl
  shows field k hk := by
    obtain ⟨v, hv, hshow⟩ := h.shows field k hk
    exact ⟨v.asWritten, by rw [Entity.asWritten, lookup_map_snd, hv, Option.map_some],
      hshow.asWritten⟩

/-! ### Columns of a row -/

/-- Names that differ in the case of letters A to Z at most. -/
def Text.SameLetters (a b : String) : Prop := Text.asciiLower a = Text.asciiLower b

instance (a b : String) : Decidable (Text.SameLetters a b) := inferInstanceAs (Decidable (_ = _))

namespace Sql.Row

variable {row : Row} {field : String} {v : Value}

/-- The first column for the field has the value. -/
def First (row : Row) (field : String) (v : Value) : Prop :=
  ∃ before name after, row = before ++ (name, v) :: after ∧ Text.SameLetters name field ∧
    ∀ c ∈ before, ¬ Text.SameLetters c.1 field

lemma get?_eq_some : row.get? field = some v ↔ row.First field v := by
  unfold Row.get? First Text.SameLetters
  rw [Option.map_eq_some_iff]
  constructor
  · rintro ⟨⟨name, _⟩, hfind, rfl⟩
    obtain ⟨hletters, before, after, rfl, hbefore⟩ := List.find?_eq_some_iff_append.mp hfind
    exact ⟨before, name, after, rfl, by simpa using hletters, by simpa using hbefore⟩
  · rintro ⟨before, name, after, rfl, hletters, hbefore⟩
    refine ⟨(name, v), List.find?_eq_some_iff_append.mpr ⟨?_, before, after, rfl, ?_⟩, rfl⟩
    · simpa using hletters
    · simpa using hbefore

lemma get?_eq_none : row.get? field = none ↔ ∀ c ∈ row, ¬ Text.SameLetters c.1 field := by
  simp [Row.get?, Text.SameLetters]

/-- The columns of the row are, in some order, one for each field of the entity with what it has
there, under the name of the field in some case, and others that are for none. -/
def Holds (row : Row) (e : Entity) : Prop :=
  ∃ (spelling : String → String) (others : Row),
    row.Perm (e.scalars.map (fun p => (spelling p.1, p.2.inColumn)) ++ others) ∧
    (∀ p ∈ e.scalars, Text.SameLetters (spelling p.1) p.1) ∧
    ∀ c ∈ others, ∀ p ∈ e.scalars, ¬ Text.SameLetters c.1 p.1

/-- A row that holds an entity has a column for each field, and no other one that could be taken for
it. -/
lemma Holds.get?_eq {e : Entity} (h : row.Holds e)
    (hnames : (e.scalars.map fun p => Text.asciiLower p.1).Nodup) {p : String × Value}
    (hp : p ∈ e.scalars) : row.get? p.1 = some p.2.inColumn := by
  obtain ⟨spelling, others, hperm, hspelling, hothers⟩ := h
  have hrow : ∀ c, c ∈ row ↔ (∃ q ∈ e.scalars, (spelling q.1, q.2.inColumn) = c) ∨ c ∈ others := by
    simp [hperm.mem_iff]
  have honly : ∀ c ∈ row, Text.SameLetters c.1 p.1 → c.2 = p.2.inColumn := by
    intro c hc hletters
    rcases (hrow c).mp hc with ⟨q, hq, rfl⟩ | hc
    · obtain rfl : q = p :=
        List.inj_on_of_nodup_map hnames hq hp ((hspelling q hq).symm.trans hletters)
      rfl
    · exact absurd hletters (hothers c hc p hp)
  have hcolumn := (hrow _).mpr (.inl ⟨p, hp, rfl⟩)
  rcases hget : row.get? p.1 with _ | v
  · exact absurd (hspelling p hp) (get?_eq_none.mp hget _ hcolumn)
  · obtain ⟨before, name, after, rfl, hname, -⟩ := get?_eq_some.mp hget
    rw [← honly (name, v) (by simp) hname]

/-- What keeps the row from being read into the field, and the error for it. -/
inductive Fault (table : String) (row : Row) : String × FieldKind → Error → Prop
  | missing {field : String} {k : FieldKind} (hnone : ∀ c ∈ row, ¬ Text.SameLetters c.1 field) :
    Fault table row (field, k)
      (.backendExecution (.plain s!"column {field} missing from {table} row"))
  | rejected {field : String} {k : FieldKind} {v : Value} (hfirst : row.First field v)
    (hv : k.ofValue? v = none) : Fault table row (field, k) (.materialization field v)

/-- Nothing keeps the row from being read into the fields. -/
def Suits (table : String) (row : Row) (fields : List (String × FieldKind)) : Prop :=
  ∀ p ∈ fields, ∀ err, ¬ row.Fault table p err

/-- A row suits where there is a value for each field that the field takes. -/
lemma suits_iff {table : String} {fields : List (String × FieldKind)} :
    row.Suits table fields ↔
      ∀ p ∈ fields, ∃ v c, row.get? p.1 = some v ∧ p.2.ofValue? v = some c := by
  constructor
  · intro h p hp
    rcases hget : row.get? p.1 with _ | v
    · exact absurd (.missing (get?_eq_none.mp hget)) (h p hp _)
    · rcases hc : p.2.ofValue? v with _ | c
      · exact absurd (.rejected (get?_eq_some.mp hget) hc) (h p hp _)
      · exact ⟨v, c, rfl, hc⟩
  · intro h p hp err hfault
    obtain ⟨v, c, hget, hc⟩ := h p hp
    cases hfault with
    | missing hnone => simp [get?_eq_none.mpr hnone] at hget
    | rejected hfirst hv =>
      obtain rfl := Option.some.inj ((get?_eq_some.mpr hfirst).symm.trans hget)
      rw [hv] at hc
      cases hc

end Sql.Row

/-! ### Rows as entities -/

/-- Steps that go the same way on the members of a list. -/
lemma foldlM_congr_of_mem {ε α β : Type} {f g : β → α → Except ε β} {as : List α} {b : β}
    (h : ∀ a ∈ as, ∀ b, f b a = g b a) : as.foldlM f b = as.foldlM g b := by
  induction as generalizing b with
  | nil => rfl
  | cons a as ih =>
    rw [List.foldlM_cons, List.foldlM_cons, h a (by simp)]
    exact congrArg _ (funext fun b' => ih fun x hx => h x (by simp [hx]))

lemma foldlM_ok {ε α β : Type} {f : β → α → Except ε β} {as : List α}
    (h : ∀ a ∈ as, ∀ b, ∃ b', f b a = .ok b') (b : β) : ∃ b', as.foldlM f b = .ok b' := by
  induction as generalizing b with
  | nil => exact ⟨b, rfl⟩
  | cons a as ih =>
    obtain ⟨b', hb'⟩ := h a (by simp) b
    rw [List.foldlM_cons, hb']
    exact ih (fun x hx => h x (by simp [hx])) b'

lemma mapM_except_ok {ε α β : Type} {f : α → Except ε β} {as : List α}
    (h : ∀ a ∈ as, ∃ b, f a = .ok b) : ∃ bs, as.mapM f = .ok bs := by
  induction as with
  | nil => exact ⟨[], rfl⟩
  | cons a as ih =>
    obtain ⟨b, hb⟩ := h a (by simp)
    obtain ⟨bs, hbs⟩ := ih fun x hx => h x (by simp [hx])
    exact ⟨b :: bs, by rw [List.mapM_cons, hb, hbs]; rfl⟩

lemma Declaration.lookup_of_mem {d : Declaration} {p : String × FieldKind} (hp : p ∈ d.fields) :
    d.fields.lookup p.1 = some p.2 := by
  obtain ⟨k, hk⟩ := Option.isSome_iff_exists.mp
    ((lookup_isSome_iff d.fields p.1).mpr (List.mem_map_of_mem hp))
  have hdistinct := (List.nodup_append.mp d.distinct).1
  rw [hk, List.inj_on_of_nodup_map hdistinct hp (mem_of_lookup _ _ hk) rfl]

lemma Declaration.assign_eq {d : Declaration} {field : String} {k : FieldKind}
    (hk : d.fields.lookup field = some k) (e : Entity) (v : Value) : d.type.assign e field v =
      (k.stored field v).map fun w => { e with scalars := e.scalars.put field w } := by
  have hput : d.type.set e.scalars field v = (k.stored field v).map (e.scalars.put field) := by
    simp [type, put, hk]
  rw [EntityType.assign, hput]
  cases k.stored field v <;> rfl

namespace SqlTable

variable {t : SqlTable} {d : Declaration} {s : Schema} {row : Row} {rows : List Row}
  {e copy : Entity} {field : String} {k : FieldKind} {err : Error}

lemma takeColumn_eq {T : EntityType} {v : Value} (h : row.get? field = some v) :
    t.takeColumn T row copy field = T.assign copy field v := by
  rw [takeColumn, h]

/-- From a row that holds an entity each field is taken as from what the texts say of it. -/
lemma takeColumn_of_holds (he : d.Fits e.scalars) (hrow : row.Holds e)
    (hnames : (d.fields.map fun p => Text.asciiLower p.1).Nodup)
    (hf : field ∈ d.fields.map Prod.fst) :
    t.takeColumn d.type row copy field = Schema.copyField d.type e.asWritten copy field := by
  obtain ⟨k, v, hk, hv, hshow⟩ := he.lookup hf
  have hlower : e.scalars.map (fun p => Text.asciiLower p.1) =
      d.fields.map fun p => Text.asciiLower p.1 := by
    simpa [Function.comp_def] using congrArg (List.map Text.asciiLower) he.names
  have hget := hrow.get?_eq (hlower ▸ hnames) (mem_of_lookup _ _ hv)
  have hread : d.type.read? e.asWritten field = some v.asWritten := by
    change e.asWritten.scalars.lookup field = _
    rw [Entity.asWritten, lookup_map_snd, hv, Option.map_some]
  rw [takeColumn_eq hget, Schema.copyField, EntityType.read, hread, ok_bind,
    Declaration.assign_eq hk, Declaration.assign_eq hk, FieldKind.stored_inColumn hshow,
    FieldKind.stored_of_shows hshow.asWritten]

/-- A row that holds an entity is read as its scalars, with dates and times as their texts say. -/
lemma ofRow_of_holds (hs : s.IsOf d.type) (he : d.Fits e.scalars) (hrow : row.Holds e)
    (hnames : (d.fields.map fun p => Text.asciiLower p.1).Nodup) :
    t.ofRow d.type s row = .ok (d.type.bare e.asWritten) := by
  rw [← Schema.snapshot_eq hs he.asWritten, ofRow, Schema.snapshot, hs.persisted_eq]
  exact foldlM_congr_of_mem fun field hf _ => takeColumn_of_holds he hrow hnames hf

lemma takeColumn_of_fault (hk : d.fields.lookup field = some k)
    (h : row.Fault t.name (field, k) err) : t.takeColumn d.type row copy field = .error err := by
  cases h with
  | missing hnone => rw [takeColumn, Row.get?_eq_none.mpr hnone]
  | rejected hfirst hv =>
    rw [takeColumn_eq (Row.get?_eq_some.mpr hfirst), Declaration.assign_eq hk, FieldKind.stored, hv]
    rfl

/-- Suitable columns are taken one after the other. -/
lemma foldlM_takeColumn_ok {fields : List (String × FieldKind)} (hsub : ∀ p ∈ fields, p ∈ d.fields)
    (h : row.Suits t.name fields) (copy : Entity) :
    ∃ copy', (fields.map Prod.fst).foldlM (t.takeColumn d.type row) copy = .ok copy' := by
  refine foldlM_ok (fun field hf copy => ?_) copy
  obtain ⟨p, hp, rfl⟩ := List.mem_map.mp hf
  obtain ⟨v, c, hget, hc⟩ := Row.suits_iff.mp h p hp
  have hk := Declaration.lookup_of_mem (hsub p hp)
  rw [takeColumn_eq hget, Declaration.assign_eq hk, FieldKind.stored, hc]
  exact ⟨_, rfl⟩

lemma ofRow_ok (hs : s.IsOf d.type) (h : row.Suits t.name d.fields) :
    ∃ e, t.ofRow d.type s row = .ok e := by
  rw [ofRow, hs.persisted_eq]
  exact foldlM_takeColumn_ok (fun _ hp => hp) h _

/-- The first fault of a row is what reading it fails with. -/
lemma ofRow_of_fault (hs : s.IsOf d.type) {before after : List (String × FieldKind)}
    {p : String × FieldKind} (hfields : d.fields = before ++ p :: after)
    (hbefore : row.Suits t.name before) (h : row.Fault t.name p err) :
    t.ofRow d.type s row = .error err := by
  have hsub : ∀ q ∈ before, q ∈ d.fields := fun q hq => by simp [hfields, hq]
  have hp : p ∈ d.fields := by simp [hfields]
  obtain ⟨copy, hcopy⟩ := foldlM_takeColumn_ok hsub hbefore d.type.fresh
  rw [ofRow, hs.persisted_eq, hfields, List.map_append, List.foldlM_append, hcopy, ok_bind,
    List.map_cons, List.foldlM_cons, takeColumn_of_fault (Declaration.lookup_of_mem hp) h]
  rfl

lemma mapM_ofRow_of_holds (hs : s.IsOf d.type) {es : List Entity}
    (h : List.Forall₂ (fun row e => d.Fits e.scalars ∧ row.Holds e) rows es)
    (hnames : (d.fields.map fun p => Text.asciiLower p.1).Nodup) :
    rows.mapM (t.ofRow d.type s) = .ok (es.map fun e => d.type.bare e.asWritten) := by
  refine mapM_ok_of_forall₂ (List.forall₂_map_right_iff.mpr (h.imp fun row e h => ?_))
  exact ofRow_of_holds hs h.1 h.2 hnames

end SqlTable

/-! ### Reads -/

/-- The connection answers the next statement with the rows. -/
def World.Returns (w : World) (connection : String) (rows : List Row) : Prop :=
  ∃ r, w.backends.get? (.connection connection) = some (.remote r) ∧
    (r.script.headD {}).failure = none ∧ (r.script.headD {}).rows = rows

/-- A read is a query for a condition that can be written, or in the words of the database. -/
inductive Adapter.Reads (a : Adapter) (q : Dialect) : Step Error (List Entity) → Prop
  | satisfying {p : Expr} {f : Fragment} (hf : compile q a.type p = .ok f) : a.Reads q (a.read p)
  | raw (sql : String) (values : List Value) : a.Reads q (a.readRaw sql values)

lemma Connection.query_of_returns {w : World} {name : String} {rows : List Row}
    (h : w.Returns name rows) (sql : String) (bindings : List Binding) :
    (query name sql bindings w).1 = .ok rows := by
  obtain ⟨r, hr, hnone, rfl⟩ := h
  have hanswer : (answer name w).1 = .ok (r.script.headD {}) := by
    simp only [answer, hr, hnone]
  have hrun : (run name .query sql bindings w).1 = (answer name w).1 := rfl
  rw [query, bind_apply]
  rcases h : run name .query sql bindings w with ⟨result, w'⟩
  rw [h, hanswer] at hrun
  cases hrun
  rfl

lemma SqlTable.query_of_returns {t : SqlTable} {w : World} {rows : List Row}
    (h : w.Returns t.connection rows) (T : EntityType) (s : Schema) (sql : String)
    (bindings : List Binding) : (t.query T s sql bindings w).1 = rows.mapM (t.ofRow T s) := by
  have hquery := Connection.query_of_returns h sql bindings
  rw [query, bind_apply, doing, Step.reported, Step.context, adapt_apply, adapt_apply]
  rcases hq : Connection.query t.connection sql bindings w with ⟨result, w'⟩
  rw [hq] at hquery
  cases hquery
  rfl

namespace Adapter

variable {d : Declaration} {q : Dialect} {connection : String} {table key : Option String}
  {generated : Option Bool} {a : Adapter} {x : Step Error (List Entity)} {w : World}
  {rows : List Row}

/-- A read of a table behind a connection makes entities of the rows that come back. -/
lemma read_eq (ha : onConnection d.type connection q table key generated = .ok a)
    (hx : a.Reads q x) (hw : w.Returns connection rows) : ∃ (t : SqlTable) (s : Schema),
      t.name = table.getD d.name ∧ s.IsOf d.type ∧ (x w).1 = rows.mapM (t.ofRow d.type s) := by
  obtain ⟨s, hs, ha⟩ := except_bind_eq_ok.mp ha
  cases ha
  let t : SqlTable := ⟨connection, table.getD d.name, q, .of (table.getD d.name) s q⟩
  refine ⟨t, s, rfl, ⟨key, generated, hs⟩, ?_⟩
  cases hx with
  | @satisfying p f hf =>
    have hcompiled : ofExcept (compile q d.type p) w = (.ok f, w) := congrArg (·, w) hf
    change (t.read d.type s p w).1 = _
    rw [SqlTable.read, bind_of_ok hcompiled]
    exact t.query_of_returns hw _ _ _ _
  | raw sql values => exact t.query_of_returns hw _ _ _ _

/-- What a read gives, by the rows that come back: the entities that they hold, in order, with their
dates and times as the texts say, which is as they are but for leap seconds within a minute; the
first fault of the first row that has one; and entities in any case if no row has a fault. -/
theorem read_of_returns (ha : onConnection d.type connection q table key generated = .ok a)
    (hnames : (d.fields.map fun p => Text.asciiLower p.1).Nodup) (hx : a.Reads q x)
    (hw : w.Returns connection rows) :
    (∀ es, List.Forall₂ (fun row e => d.Fits e.scalars ∧ row.Holds e) rows es →
        (x w).1 = .ok (es.map fun e => d.type.bare e.asWritten) ∧
        ((∀ e ∈ es, e.Regular) → (x w).1 = .ok (es.map d.type.bare))) ∧
      (∀ before row after fields p fields' err, rows = before ++ row :: after →
        (∀ r ∈ before, r.Suits (table.getD d.name) d.fields) → d.fields = fields ++ p :: fields' →
        row.Suits (table.getD d.name) fields → row.Fault (table.getD d.name) p err →
        (x w).1 = .error err) ∧
      ((∀ row ∈ rows, row.Suits (table.getD d.name) d.fields) → ∃ es, (x w).1 = .ok es) := by
  obtain ⟨t, s, ht, hs, hread⟩ := read_eq ha hx hw
  rw [hread, ← ht]
  refine ⟨fun es h => ?_, ?_, ?_⟩
  · have hentities := SqlTable.mapM_ofRow_of_holds hs h hnames (t := t)
    refine ⟨hentities, fun hregular => ?_⟩
    have hsame : es.map (fun e => d.type.bare e.asWritten) = es.map d.type.bare :=
      List.map_congr_left fun e he => congrArg d.type.bare (hregular e he).asWritten_eq
    rw [hentities, hsame]
  · intro before row after fields p fields' err hrows hbefore hfields hp h
    obtain ⟨es, hes⟩ := mapM_except_ok fun r hr => SqlTable.ofRow_ok hs (hbefore r hr)
    rw [hrows, List.mapM_append, hes, ok_bind, List.mapM_cons,
      SqlTable.ofRow_of_fault hs hfields hp h]
    rfl
  · intro h
    exact mapM_except_ok fun row hrow => SqlTable.ofRow_ok hs (h row hrow)

end Adapter

namespace Surgery

/-- A visit, and the day on which it was paid for. -/
def visit : Declaration where
  name := "Visit"
  fields := [("visitId", .int64), ("urgent", .bool), ("paid", .optional .date)]

def paid : Entity where
  scalars := [("visitId", .int 1), ("urgent", .bool true),
    ("paid", .dateTime Date.epoch.atMidnight)]
  children := []

def unpaid : Entity where
  scalars := [("visitId", .int 2), ("urgent", .bool false), ("paid", .null)]
  children := []

lemma paid_fits : visit.Fits paid.scalars :=
  Declaration.fits_of_forall₂ (.cons ⟨rfl, (1 : Int64), rfl⟩ (.cons ⟨rfl, true, rfl⟩
    (.cons ⟨rfl, some Date.epoch, rfl⟩ .nil)))

lemma unpaid_fits : visit.Fits unpaid.scalars :=
  Declaration.fits_of_forall₂ (.cons ⟨rfl, (2 : Int64), rfl⟩ (.cons ⟨rfl, false, rfl⟩
    (.cons ⟨rfl, (none : Option Date), rfl⟩ .nil)))

def paidRow : Row :=
  [("PAID", .text "1970-01-01 00:00:00"), ("urgent", .int 1), ("VisitId", .int 1), ("room", .int 5)]

def unpaidRow : Row := [("visitId", .int 2), ("urgent", .int 0), ("paid", .null)]

/-- Neither urgent nor not, and without a column for the payment. -/
def brokenRow : Row := [("visitId", .int 3), ("urgent", .int 2)]

/-- The names that the columns of the row have for the fields. -/
def spelled (field : String) : String :=
  if field = "paid" then "PAID" else if field = "visitId" then "VisitId" else field

lemma paidRow_holds : paidRow.Holds paid := by
  have hcolumns : paidRow =
      (paid.scalars.map fun p => (spelled p.1, p.2.inColumn)).reverse ++ [("room", .int 5)] := rfl
  refine ⟨spelled, [("room", .int 5)], ?_, by decide, by decide⟩
  rw [hcolumns]
  exact (List.reverse_perm _).append_right _

lemma unpaidRow_holds : unpaidRow.Holds unpaid :=
  ⟨id, [], .refl _, fun _ _ => rfl, fun _ hc => by cases hc⟩

lemma paidRow_suits : paidRow.Suits "Visit" visit.fields := by
  refine Row.suits_iff.mpr fun p hp => ?_
  simp only [visit, List.mem_cons, List.not_mem_nil, or_false] at hp
  rcases hp with rfl | rfl | rfl
  · exact ⟨.int 1, (1 : Int64), rfl, rfl⟩
  · exact ⟨.int 1, true, rfl, rfl⟩
  · exact ⟨.text "1970-01-01 00:00:00", some Date.epoch, rfl, rfl⟩

lemma brokenRow_suits : brokenRow.Suits "Visit" [("visitId", .int64)] := by
  refine Row.suits_iff.mpr fun p hp => ?_
  obtain rfl := List.mem_singleton.mp hp
  exact ⟨.int 3, (3 : Int64), rfl, rfl⟩

lemma brokenRow_fault :
    brokenRow.Fault "Visit" ("urgent", .bool) (.materialization "urgent" (.int 2)) :=
  .rejected (Row.get?_eq_some.mp rfl) rfl

def answering (rows : List Row) : World where
  backends := [(.connection "db", .remote { script := [{ rows := rows }] })]

lemma returns_answering (rows : List Row) : (answering rows).Returns "db" rows := ⟨_, rfl, rfl, rfl⟩

theorem visits_read : ∃ a, Adapter.onConnection visit.type "db" .sqlite none none none = .ok a ∧
    (a.readRaw "SELECT * FROM Visit" [] (answering [paidRow, unpaidRow])).1 =
      .ok [paid, unpaid] ∧
    (a.readRaw "SELECT * FROM Visit" [] (answering [paidRow, brokenRow])).1 =
      .error (.materialization "urgent" (.int 2)) := by
  have hok : (Adapter.onConnection visit.type "db" .sqlite none none none).isOk := by
    decide +kernel
  obtain ⟨a, ha⟩ : ∃ a, Adapter.onConnection visit.type "db" .sqlite none none none = .ok a := by
    rcases h : Adapter.onConnection visit.type "db" .sqlite none none none with err | a
    · rw [h] at hok
      cases hok
    · exact ⟨a, rfl⟩
  have hnames : (visit.fields.map fun p => Text.asciiLower p.1).Nodup := by decide
  have hread := fun rows => Adapter.read_of_returns ha hnames (.raw "SELECT * FROM Visit" [])
    (returns_answering rows)
  refine ⟨a, ha, ((hread _).1 [paid, unpaid] ?_).1, ?_⟩
  · exact .cons ⟨paid_fits, paidRow_holds⟩ (.cons ⟨unpaid_fits, unpaidRow_holds⟩ .nil)
  · refine (hread _).2.1 [paidRow] brokenRow [] [("visitId", .int64)] _ _ _ rfl ?_ rfl
      brokenRow_suits brokenRow_fault
    intro r hr
    obtain rfl := List.mem_singleton.mp hr
    exact paidRow_suits

/-- When a patient came. -/
def arrival : Declaration where
  name := "Arrival"
  fields := [("arrivalId", .int64), ("at", .dateTime)]

/-- One that came in a leap second within a minute. -/
def late : Entity where
  scalars := [("arrivalId", .int 1), ("at", .dateTime DateTime.midMinute)]
  children := []

def lateRow : Row := [("arrivalId", .int 1), ("at", .text DateTime.midMinute.text)]

lemma late_fits : arrival.Fits late.scalars :=
  Declaration.fits_of_forall₂ (.cons ⟨rfl, (1 : Int64), rfl⟩
    (.cons ⟨rfl, DateTime.midMinute, rfl⟩ .nil))

lemma lateRow_holds : lateRow.Holds late :=
  ⟨id, [], .refl _, fun _ _ => rfl, fun _ hc => by cases hc⟩

/-- The row holds the arrival, and is read as one in the second after it. -/
theorem late_reread : ∃ a,
    Adapter.onConnection arrival.type "db" .sqlite none (some "arrivalId") none = .ok a ∧
    arrival.Fits late.scalars ∧ lateRow.Holds late ∧
    (a.readRaw "SELECT * FROM Arrival" [] (answering [lateRow])).1 ≠
      .ok [arrival.type.bare late] := by
  obtain ⟨a, ha⟩ : ∃ a, Adapter.onConnection arrival.type "db" .sqlite none (some "arrivalId")
      none = .ok a := ⟨_, rfl⟩
  obtain ⟨t, s, -, hs, hread⟩ := Adapter.read_eq ha (.raw "SELECT * FROM Arrival" [])
    (returns_answering [lateRow])
  have hentity : [lateRow].mapM (t.ofRow arrival.type s) =
      .ok ([late].map fun e => arrival.type.bare e.asWritten) :=
    SqlTable.mapM_ofRow_of_holds hs (.cons ⟨late_fits, lateRow_holds⟩ .nil) (by decide)
  refine ⟨a, ha, late_fits, lateRow_holds, fun h => ?_⟩
  rw [hread, hentity] at h
  have hlookup : [some (Value.dateTime DateTime.midMinute.asWritten)] =
      [some (Value.dateTime DateTime.midMinute)] :=
    congrArg (List.map fun e : Entity => e.scalars.lookup "at") (Except.ok.inj h)
  simp only [List.cons.injEq, Option.some.injEq, Value.dateTime.injEq, and_true] at hlookup
  exact absurd hlookup (by decide)

end Surgery

end EntityStore
