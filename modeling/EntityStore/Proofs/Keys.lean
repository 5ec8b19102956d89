import EntityStore.Proofs.Integers
import EntityStore.Proofs.Undo

/-!
Tables under generated integer keys. The key that a table generates is greater than all it holds;
what is stored of an entity is its scalars as they are; and a search gives the rows on which its
predicate holds.
-/

namespace EntityStore

/-! ### What is stored -/

namespace Schema

variable {s : Schema} {d : Declaration} {e copy : Entity}

lemma IsOf.persisted_eq (h : s.IsOf d.type) : s.persisted = d.fields.map Prod.fst := by
  rw [h.fields.2.1, Declaration.type, List.map_map]
  rfl

lemma IsOf.mem_persistedWithoutKey (h : s.IsOf d.type) {f : String} :
    f ∈ s.persistedWithoutKey ↔ f ∈ d.fields.map Prod.fst ∧ f ≠ s.key := by
  rw [h.fields.2.2, Declaration.type]
  simp only [List.mem_map, List.mem_filter, decide_eq_true_eq]
  constructor
  · rintro ⟨_, ⟨⟨p, hp, rfl⟩, hne⟩, rfl⟩
    exact ⟨⟨p, hp, rfl⟩, hne⟩
  · rintro ⟨⟨p, hp, rfl⟩, hne⟩
    exact ⟨_, ⟨⟨p, hp, rfl⟩, hne⟩, rfl⟩

/-- Fields of a well-typed entity are copied one by one. -/
lemma copyFields_ok (he : d.Fits e.scalars) {fields : List String}
    (hf : ∀ f ∈ fields, f ∈ d.fields.map Prod.fst) (hc : d.Fits copy.scalars) :
    ∃ row, fields.foldlM (copyField d.type e) copy = .ok row ∧ d.Fits row.scalars ∧
      row.children = copy.children ∧ ∀ g, row.scalars.lookup g =
        if g ∈ fields then e.scalars.lookup g else copy.scalars.lookup g := by
  induction fields generalizing copy with
  | nil => exact ⟨copy, rfl, hc, rfl, fun g => by simp⟩
  | cons f fields ih =>
    obtain ⟨k, v, hk, hv, hshow⟩ := he.lookup (hf f (by simp))
    have hput : d.put copy.scalars f v = .ok (copy.scalars.put f v) :=
      Declaration.put_of_shows hk hshow copy.scalars
    have hcopy : copyField d.type e copy f = .ok { copy with scalars := copy.scalars.put f v } := by
      have hread : d.type.read e f = .ok v := by
        simp [EntityType.read, EntityType.read?, Declaration.type, hv]
      have hassign :
          d.type.assign copy f v = .ok { copy with scalars := copy.scalars.put f v } := by
        simp [EntityType.assign, Declaration.type, hput, Except.map]
      rw [copyField, hread]
      exact hassign
    have hc' : d.Fits ({ copy with scalars := copy.scalars.put f v } : Entity).scalars :=
      hc.put hput
    obtain ⟨row, hrow, hfit, hchildren, hlookup⟩ := ih (fun g hg => hf g (by simp [hg])) hc'
    refine ⟨row, ?_, hfit, hchildren, fun g => ?_⟩
    · rw [List.foldlM_cons, hcopy]
      exact hrow
    · obtain ⟨_, hcv⟩ := Option.isSome_iff_exists.mp
        ((lookup_isSome_iff _ _).mpr (hc.names ▸ hf f (by simp)))
      rw [hlookup g, Record.lookup_put]
      by_cases hg : g ∈ fields
      · simp [hg]
      · by_cases hgf : g = f
        · simp [hgf, hv, hcv]
        · simp [hg, hgf]

lemma snapshot_eq (h : s.IsOf d.type) (he : d.Fits e.scalars) :
    s.snapshot d.type e = .ok (d.type.bare e) := by
  have hmem : ∀ f ∈ s.persisted, f ∈ d.fields.map Prod.fst := by simp [h.persisted_eq]
  have hfresh : d.Fits d.type.fresh.scalars := d.fits_blank
  obtain ⟨row, hrow, hfit, hchildren, hlookup⟩ := copyFields_ok he hmem hfresh
  have hscalars : row.scalars = e.scalars := by
    refine hfit.eq_of_lookup he fun f hf => ?_
    rw [hlookup f, if_pos (h.persisted_eq ▸ hf)]
  have hbare : row = d.type.bare e := by
    obtain ⟨scalars, children⟩ := row
    cases hscalars
    cases hchildren
    rfl
  rw [snapshot, ← hbare]
  exact hrow

lemma overwrite_of_copyFields {T : EntityType} {row row' : Entity} {fields : List String}
    (h : fields.foldlM (copyField T e) row = .ok row') :
    Table.overwrite T e fields row = (row', none) := by
  induction fields generalizing row with
  | nil => cases h; rfl
  | cons f fields ih =>
    rw [List.foldlM_cons] at h
    obtain ⟨row₁, hf, h⟩ := except_bind_eq_ok.mp h
    have hf : (T.read e f >>= T.assign row f) = .ok row₁ := hf
    rw [Table.overwrite, hf]
    exact ih h

/-- Over a row with the key of the entity, all its scalars are stored. -/
lemma overwrite_eq {row : Entity} (h : s.IsOf d.type) (hk : d.HasInteger s.key)
    (he : d.Fits e.scalars) (hrow : d.Fits row.scalars)
    (hkey : row.scalars.integer? s.key = e.scalars.integer? s.key) :
    Table.overwrite d.type e s.persistedWithoutKey row =
      ({ row with scalars := e.scalars }, none) := by
  have hmem : ∀ f ∈ s.persistedWithoutKey, f ∈ d.fields.map Prod.fst :=
    fun f hf => (h.mem_persistedWithoutKey.mp hf).1
  obtain ⟨row', hcopy, hfit, hchildren, hlookup⟩ := copyFields_ok he hmem hrow
  have hscalars : row'.scalars = e.scalars := by
    refine hfit.eq_of_lookup he fun f hf => ?_
    rw [hlookup f]
    split
    · rfl
    · rename_i hf'
      obtain rfl : f = s.key := by
        by_contra hne
        exact hf' (h.mem_persistedWithoutKey.mpr ⟨hf, hne⟩)
      rw [hrow.lookup_integer hk, he.lookup_integer hk, hkey]
  have hrow' : row' = { row with scalars := e.scalars } := by
    obtain ⟨scalars, children⟩ := row'
    cases hscalars
    cases hchildren
    rfl
  rw [overwrite_of_copyFields hcopy, hrow']

end Schema

/-! ### Generated keys -/

namespace Table

variable {s : Schema} {d : Declaration} {e : Entity} {rows : List Entity} {k m : Int64}

/-- The integers in the key field, row by row. -/
def keys (key : String) (rows : List Entity) : List (Option Int64) :=
  rows.map fun row => row.scalars.integer? key

/-- The key is positive and greater than all the others. A null is not compared with. -/
structure Above (keys : List (Option Int64)) (k : Int64) : Prop where
  pos : 0 < k
  greater : ∀ j, some j ∈ keys → j < k

lemma some_mem_keys {key : String} {j : Int64} :
    some j ∈ keys key rows ↔ ∃ row ∈ rows, row.scalars.integer? key = some j := by
  simp [keys]

lemma keys_append (key : String) (rows rows' : List Entity) :
    keys key (rows ++ rows') = keys key rows ++ keys key rows' := List.map_append

/-- A key above the others is none of them. -/
lemma Above.notMem {keys : List (Option Int64)} (h : Above keys k) : some k ∉ keys :=
  fun hk => Int64.lt_irrefl (h.greater k hk)

lemma greaterKey_eq {row : Entity} (hrow : d.Fits row.scalars) (hk : d.HasInteger s.key) :
    greaterKey d.type s m row =
      .ok (match row.scalars.integer? s.key with
        | some j => if m < j then j else m
        | none => m) := by
  rw [greaterKey, hrow.read_integer hk]
  rcases row.scalars.integer? s.key with _ | j <;> rfl

/-- The greatest key is one of the table, unless it is the one that was there at first. -/
lemma foldlM_greaterKey (hrows : ∀ row ∈ rows, d.Fits row.scalars) (hk : d.HasInteger s.key) :
    ∃ most, rows.foldlM (greaterKey d.type s) m = .ok most ∧ m ≤ most ∧
      (∀ j, some j ∈ keys s.key rows → j ≤ most) ∧ (most = m ∨ some most ∈ keys s.key rows) := by
  induction rows generalizing m with
  | nil => exact ⟨m, rfl, Int64.le_refl _, by simp [keys], .inl rfl⟩
  | cons row rows ih =>
    have hrow := greaterKey_eq (m := m) (hrows row (by simp)) hk
    rw [List.foldlM_cons, hrow]
    have hrows' : ∀ x ∈ rows, d.Fits x.scalars := fun x hx => hrows x (by simp [hx])
    have hkeys : keys s.key (row :: rows) = row.scalars.integer? s.key :: keys s.key rows := rfl
    rw [hkeys]
    rcases row.scalars.integer? s.key with _ | j
    · obtain ⟨most, hfold, hle, hall, hsome⟩ := ih hrows' (m := m)
      exact ⟨most, hfold, hle, by simpa using hall, by simpa using hsome⟩
    · obtain ⟨most, hfold, hle, hall, hsome⟩ := ih hrows' (m := if m < j then j else m)
      have hboth : m ≤ most ∧ j ≤ most := by
        simp only [Int64.le_iff_toInt_le, Int64.lt_iff_toInt_lt] at hle ⊢
        split at hle <;> omega
      refine ⟨most, hfold, hboth.1, by simpa using ⟨hboth.2, hall⟩, ?_⟩
      rcases hsome with hm | hm
      · split at hm
        · exact .inr (by simp [hm])
        · exact .inl hm
      · exact .inr (by simp [hm])

/-- The next key is the least of those above the table. There is none if the greatest integer is a
key. -/
lemma nextKey_cases (hrows : ∀ row ∈ rows, d.Fits row.scalars) (hk : d.HasInteger s.key) :
    (∃ k, nextKey d.type s rows = .ok k ∧ Above (keys s.key rows) k ∧
        ∀ j, Above (keys s.key rows) j → k ≤ j) ∨
      ∃ err, nextKey d.type s rows = .error err ∧ ∀ j, ¬ Above (keys s.key rows) j := by
  obtain ⟨most, hfold, hle, hall, hsome⟩ := foldlM_greaterKey (m := 0) hrows hk
  have hzero : (0 : Int64).toInt = 0 := rfl
  have hleast : ∀ j, Above (keys s.key rows) j → most.toInt < j.toInt := by
    intro j hj
    rcases hsome with rfl | hm
    · exact Int64.lt_iff_toInt_lt.mp hj.pos
    · exact Int64.lt_iff_toInt_lt.mp (hj.greater most hm)
  rw [Int64.le_iff_toInt_le] at hle
  rw [nextKey, hfold]
  by_cases hfit : most.toInt + 1 ≤ Int64.maxValue.toInt
  · left
    have hmin : Int64.minValue.toInt < 0 := by decide
    have hmax : Int64.maxValue.toInt < 2 ^ 63 := by decide
    have hnext : fit? (most.toInt + 1) = some (Int64.ofInt (most.toInt + 1)) :=
      if_pos (by omega)
    have hval : (Int64.ofInt (most.toInt + 1)).toInt = most.toInt + 1 :=
      Int64.toInt_ofInt_of_le (by omega) (by omega)
    refine ⟨Int64.ofInt (most.toInt + 1), ?_, ⟨?_, fun j hj => ?_⟩, fun j hj => ?_⟩
    · simp only [bind, Except.bind, hnext]
      rfl
    · rw [Int64.lt_iff_toInt_lt]
      omega
    · have := Int64.le_iff_toInt_le.mp (hall j hj)
      rw [Int64.lt_iff_toInt_lt]
      omega
    · have := hleast j hj
      rw [Int64.le_iff_toInt_le]
      omega
  · right
    have hnext : fit? (most.toInt + 1) = none := if_neg (by omega)
    refine ⟨_, by simp only [bind, Except.bind, hnext]; rfl, fun j hj => ?_⟩
    have := hleast j hj
    have := j.toInt_le
    omega

/-- An entity is created under a key above the table, or the table stays as it is because no such
key fits. -/
lemma create_cases (hs : s.IsOf d.type) (hg : s.generated = true) (hk : d.HasInteger s.key)
    (hrows : ∀ row ∈ rows, d.Fits row.scalars) (he : d.Fits e.scalars) :
    (∃ k, Above (keys s.key rows) k ∧ d.Fits (e.withInteger s.key k).scalars ∧
      create d.type s e rows = ⟨.ok (e.withInteger s.key k),
        rows ++ [d.type.bare (e.withInteger s.key k)], some (.created d.type s.key (.int k))⟩) ∨
      ∃ err, create d.type s e rows = ⟨.error err, rows, none⟩ ∧
        ∀ kind, d.fields.lookup s.key = some kind →
          ∀ j, Above (keys s.key rows) j → ¬ kind.Takes j := by
  obtain ⟨kind, hkind, hint⟩ := id hk
  rcases nextKey_cases hrows hk with ⟨k, hnext, habove, hleast⟩ | ⟨err, hnext, hnone⟩
  · by_cases htakes : kind.Takes k
    · left
      have hassign := Declaration.assign_of_takes hkind hint htakes e
      have hfits : d.Fits (e.withInteger s.key k).scalars := he.of_assign hassign
      have hkey : (e.withInteger s.key k).scalars.integer? s.key = some k :=
        Record.integer?_put_self (hk.mem_names he) k
      have hread : d.type.read (d.type.bare (e.withInteger s.key k)) s.key = .ok (.int k) := by
        have hread :=
          Declaration.Fits.read_integer (e := d.type.bare (e.withInteger s.key k)) hfits hk
        rwa [EntityType.bare, hkey] at hread
      refine ⟨k, habove, hfits, ?_⟩
      simp only [create, creation, keyed, hg, if_true, bind, Except.bind, hnext, hassign,
        Schema.snapshot_eq hs hfits, hread]
      rfl
    · right
      have hassign := Declaration.assign_of_not_takes hkind htakes e
      refine ⟨.materialization s.key (.int k), ?_, fun kind' hkind' j hj ht => htakes ?_⟩
      · simp only [create, creation, keyed, hg, if_true, bind, Except.bind, hnext, hassign]
      rw [hkind, Option.some.injEq] at hkind'
      subst hkind'
      exact hint.takes_of_le ht habove.pos (hleast j hj)
  · right
    refine ⟨err, ?_, fun _ _ j hj => absurd hj (hnone j)⟩
    simp only [create, creation, keyed, hg, if_true, bind, Except.bind, hnext]

/-- Well-typed rows under distinct keys. -/
structure WellKeyed (d : Declaration) (key : String) (rows : List Entity) : Prop where
  fits : ∀ row ∈ rows, d.Fits row.scalars
  distinct : (keys key rows).Nodup

/-- A row under a key above the others is added to them. -/
lemma WellKeyed.append {key : String} {row : Entity} (h : WellKeyed d key rows)
    (hrow : d.Fits row.scalars) (hk : row.scalars.integer? key = some k)
    (habove : Above (keys key rows) k) : WellKeyed d key (rows ++ [row]) := by
  refine ⟨fun x hx => ?_, ?_⟩
  · rcases List.mem_append.mp hx with hx | hx
    · exact h.fits x hx
    · rw [List.mem_singleton.mp hx]
      exact hrow
  · have hlast : keys key [row] = [some k] := by rw [keys, List.map_singleton, hk]
    rw [keys_append, hlast]
    refine List.nodup_append.mpr ⟨h.distinct, by simp, fun j hj j' hj' heq => habove.notMem ?_⟩
    obtain rfl : j' = some k := by simpa using hj'
    exact heq ▸ hj

/-- A positive key is settled. -/
lemma isTransient_eq_false (he : d.Fits e.scalars) (hk : d.HasInteger s.key)
    (h : e.scalars.integer? s.key = some k) (hpos : 0 < k) : s.isTransient d.type e = false := by
  have hv : d.type.read? e s.key = _ := he.lookup_integer hk
  have hne : (k == 0) = false := by
    rw [beq_eq_false_iff_ne]
    rintro rfl
    exact Int64.lt_irrefl hpos
  rw [Schema.isTransient, hv, h]
  simp [Value.ofInteger?, hne]

/-- The row of a key, between those without it. -/
lemma find?_eq_some_append {T : EntityType} {key : String} {v : Value} {i : Nat} {row : Entity}
    (h : find? T key v rows = some (i, row)) :
    hasKey T key v row = true ∧ ∃ before after, rows = before ++ row :: after ∧
      before.length = i ∧ ∀ x ∈ before, hasKey T key v x = false := by
  have hrow := find?_eq_some h
  obtain ⟨hi, rfl⟩ := List.getElem?_eq_some_iff.mp hrow
  have hidx : rows.findIdx? (hasKey T key v) = some i := by
    unfold find? at h
    rcases hj : rows.findIdx? (hasKey T key v) with _ | j
    · simp [hj] at h
    · rcases hr : rows[j]? with _ | r
      · simp [hj, hr] at h
      · simp only [hj, hr, Option.bind_eq_bind, Option.bind_some, Option.pure_def,
          Option.some.injEq, Prod.mk.injEq] at h
        rw [h.1]
  obtain ⟨_, hkey, hbefore⟩ := List.findIdx?_eq_some_iff_getElem.mp hidx
  refine ⟨hkey, rows.take i, rows.drop (i + 1), ?_, by simp; omega, fun x hx => ?_⟩
  · rw [List.getElem_cons_drop, List.take_append_drop]
  · obtain ⟨j, hj, rfl⟩ := List.mem_take_iff_getElem.mp hx
    simpa using hbefore j (by omega)

lemma find?_eq_none {T : EntityType} {key : String} {v : Value} (h : find? T key v rows = none) :
    ∀ row ∈ rows, hasKey T key v row = false := by
  unfold find? at h
  rcases hj : rows.findIdx? (hasKey T key v) with _ | j
  · exact List.findIdx?_eq_none_iff.mp hj
  · obtain ⟨hlt, -, -⟩ := List.findIdx?_eq_some_iff_getElem.mp hj
    simp [hj, hlt] at h

end Table

/-! ### Selected rows -/

/-- A loop that filters a list decides on every element, or fails on one. -/
lemma filterM_cases {ε α : Type} (p : α → Except ε Bool) (xs : List α) :
    ((∀ x ∈ xs, ∃ b, p x = .ok b) ∧
        xs.filterM p = .ok (xs.filter fun x => (p x).toOption = some true))
      ∨ ∃ err, xs.filterM p = .error err ∧ ∃ x ∈ xs, p x = .error err := by
  have haux : ∀ acc, ((∀ x ∈ xs, ∃ b, p x = .ok b) ∧ xs.filterAuxM p acc =
        .ok ((xs.filter fun x => (p x).toOption = some true).reverse ++ acc))
      ∨ ∃ err, xs.filterAuxM p acc = .error err ∧ ∃ x ∈ xs, p x = .error err := by
    induction xs with
    | nil => exact fun acc => .inl ⟨by simp, rfl⟩
    | cons x xs ih =>
      intro acc
      rcases hx : p x with err | b
      · exact .inr ⟨err, by simp [List.filterAuxM, hx, bind, Except.bind], x, by simp, hx⟩
      · have hstep : (x :: xs).filterAuxM p acc = xs.filterAuxM p (cond b (x :: acc) acc) := by
          simp [List.filterAuxM, hx, bind, Except.bind]
        rw [hstep]
        rcases ih (cond b (x :: acc) acc) with ⟨hall, hfilter⟩ | ⟨err, herr, y, hy, hpy⟩
        · refine .inl ⟨by simpa [hx] using hall, ?_⟩
          rw [hfilter]
          cases b <;> simp [hx, Except.toOption]
        · exact .inr ⟨err, herr, y, by simp [hy], hpy⟩
  unfold List.filterM
  rcases haux [] with ⟨hall, hfilter⟩ | ⟨err, herr, hx⟩
  · exact .inl ⟨hall, by simp [hfilter, bind, Except.bind, pure, Except.pure]⟩
  · exact .inr ⟨err, by simp [herr, bind, Except.bind], hx⟩

/-- The predicate is decided on the entity, and true. -/
def Expr.holds (T : EntityType) (e : Entity) (p : Expr) : Bool :=
  (p.satisfied T e).toOption = some true

namespace Table

lemma select_cases (T : EntityType) (p : Expr) (rows : List Entity) :
    ((∀ row ∈ rows, ∃ b, p.satisfied T row = .ok b) ∧
        select T p rows = .ok (rows.filter fun row => p.holds T row)) ∨
      ∃ err, select T p rows = .error err ∧ ∃ row ∈ rows, p.satisfied T row = .error err :=
  filterM_cases (fun row => p.satisfied T row) rows

/-- A search by an integer field decides on every row. -/
lemma select_integer {d : Declaration} {rows : List Entity}
    (hrows : ∀ row ∈ rows, d.Fits row.scalars) {field : String} (hf : d.HasInteger field)
    (k : Int64) :
    select d.type (.binary .eq (.field field) (.constant (.int k))) rows =
      .ok (rows.filter fun row => row.scalars.integer? field = some k) := by
  have hsat : ∀ row ∈ rows,
      Expr.satisfied d.type row (.binary .eq (.field field) (.constant (.int k))) =
        .ok (decide (row.scalars.integer? field = some k)) := by
    intro row hrow
    have hread := Declaration.Fits.read_integer (hrows row hrow) hf
    simp only [Expr.satisfied, Expr.eval, bind, Except.bind, hread, Value.binary,
      Value.equals_ofInteger?]
    rfl
  rcases select_cases d.type (.binary .eq (.field field) (.constant (.int k))) rows with
    ⟨-, hselect⟩ | ⟨err, -, row, hrow, herr⟩
  · rw [hselect]
    refine congrArg _ (List.filter_congr fun row hrow => ?_)
    simp [Expr.holds, hsat row hrow, Except.toOption]
  · rw [hsat row hrow] at herr
    cases herr

end Table

namespace MemoryTable

variable {α : Type} (t : MemoryTable) (tx : Transaction) (f : List Entity → Table.Outcome α)
  (w : World)

lemma tables_write :
    (t.write tx f w).2.tables = w.tables.put t.name (f (w.rows t.name)).rows := by
  have hjournal : ∀ u w', (t.journal tx u w').tables = w'.tables := by
    intro u w'
    unfold journal
    split
    · split
      · unfold World.journal
        split <;> rfl
      · rfl
    · rfl
  exact hjournal _ _

/-- A write changes its own table alone. -/
lemma rows_write :
    (t.write tx f w).2.rows = Function.update w.rows t.name (f (w.rows t.name)).rows := by
  rw [← World.rows_withRows]
  funext table
  rw [World.rows, tables_write]
  rfl

end MemoryTable

/-- The adapter keeps the entities of a declared type in a table in memory, under integer keys that
it generates. -/
structure Adapter.Generates (Γ : Declarations) (t : MemoryTable) (a : Adapter) : Prop where
  declared : a.Declared Γ
  storage : a.storage = .memory t
  generated : a.schema.generated = true
  key : (Γ.of a.type.name).HasInteger a.schema.key

end EntityStore
