import EntityStore.Proofs.Agreement
import EntityStore.Proofs.Isolation
import EntityStore.Proofs.Removal

/-!
What is left under a key after a deletion. A deletion takes out the first row under the key and a
search finds all of them, so nothing is found just if there was no second one. Generated keys are
always new to their table; other keys are unless one is created again.
-/

namespace EntityStore

open Fallible

/-! ### Values of one field -/

namespace FieldKind

variable {k : FieldKind} {v w : Value} {i : Int64}

/-- Of an integer a field keeps the same integer, or a value of another kind. -/
lemma toValue_of_int {c : k.Content} (h : k.ofValue? (.int i) = some c) :
    k.toValue c = .int i ∨ (k.toValue c).kind = .bool ∨ (k.toValue c).kind = .float := by
  have hinteger : ∀ {k : FieldKind} {c : k.Content}, k.IsInteger → k.ofValue? (.int i) = some c →
      k.toValue c = .int i := fun hk h => hk.toValue_eq h
  induction k with
  | bool => exact .inr (.inl rfl)
  | float => exact .inr (.inr rfl)
  | int32 => exact .inl (hinteger rfl h)
  | int64 => exact .inl (hinteger rfl h)
  | uint32 => exact .inl (hinteger rfl h)
  | enumeration e =>
    simp only [ofValue?, integer?, Option.bind_some] at h
    split at h <;> cases h
    exact .inl rfl
  | optional k ih =>
    rw [ofValue?_optional] at h
    obtain ⟨c', hc', rfl⟩ := Option.map_eq_some_iff.mp h
    exact ih hc'
  | _ => cases h

/-- An integer that is stored is the same as no other integer, and as no null. -/
lemma not_same_stored {field : String} (h : k.stored field (.int i) = .ok w)
    (hv : v = .null ∨ ∃ j, v = .int j ∧ j ≠ i) : v.same w = false := by
  unfold stored at h
  split at h
  · rename_i c hc
    cases h
    have hkind := toValue_of_int hc
    generalize k.toValue c = w at hkind
    rcases hkind with rfl | hw | hw <;> rcases hv with rfl | ⟨j, rfl, hj⟩
    · rfl
    · exact beq_eq_false_iff_ne.mpr hj
    all_goals
      cases w <;> cases hw
      rfl
  · cases h

end FieldKind

namespace Value

variable {v w : Value}

lemma compare_beq_eq {α : Type} [Ord α] [Std.LawfulEqOrd α] [BEq α] [LawfulBEq α] (a b : α) :
    (compare a b == .eq) = (a == b) := by
  rw [Bool.eq_iff_iff, beq_iff_eq, beq_iff_eq]
  exact Std.LawfulEqOrd.compare_eq_iff_eq

lemma order_beq_eq (x y : Calendar.DateTime) : (x.order y == .eq) = (x == y) := by
  rw [Bool.eq_iff_iff, beq_iff_eq, beq_iff_eq, Calendar.DateTime.order,
    Std.LawfulEqOrd.compare_eq_iff_eq]
  refine ⟨fun h => ?_, fun h => h ▸ rfl⟩
  obtain ⟨⟨_, _, _, _, _⟩, ⟨_, _, _, _, _, _, _, _⟩⟩ := x
  obtain ⟨⟨_, _, _, _, _⟩, ⟨_, _, _, _, _, _, _, _⟩⟩ := y
  simp only [Calendar.DateTime.parts, List.cons.injEq, Int.natCast_inj, and_true] at h
  simpa [and_assoc] using h

/-- Two values of one kind compare, as equal just if they are the same. -/
lemma compare?_of_kind (hkind : v.kind = w.kind) (hv : v.isNaN = false) (hw : w.isNaN = false) :
    ∃ o, v.compare? w = some o ∧ (o == .eq) = v.same w := by
  cases v <;> cases w <;> cases hkind
  · exact ⟨_, rfl, rfl⟩
  · exact ⟨_, rfl, compare_beq_eq _ _⟩
  · exact ⟨_, rfl, compare_beq_eq _ _⟩
  · simp only [isNaN, Option.isNone_eq_false_iff, Option.isSome_iff_exists] at hv hw
    obtain ⟨i, hi⟩ := hv
    obtain ⟨j, hj⟩ := hw
    refine ⟨compare i j, by simp [compare?, Binary64.compare?, hi, hj], ?_⟩
    simp [same, Binary64.same, Binary64.compare?, hi, hj]
  · exact ⟨_, rfl, compare_beq_eq _ _⟩
  · exact ⟨_, rfl, order_beq_eq _ _⟩

/-- Two values of one field are equal just if they are the same. -/
lemma equals_of_shows {k : FieldKind} (hv : k.Shows v) (hw : k.Shows w) (hvn : v.isNaN = false)
    (hwn : w.isNaN = false) : v.equals w = .ok (v.same w) := by
  rcases FieldKind.eq_null_or_kind_eq hv with rfl | hvk
  · cases w <;> rfl
  rcases FieldKind.eq_null_or_kind_eq hw with rfl | hwk
  · cases v <;> rfl
  have hnull : ∀ {u : Value}, u.kind = k.type.scalar.kind → u.isNull = false := by
    intro u hu
    cases u with
    | null =>
      rw [kind] at hu
      revert hu
      cases k.type.scalar <;> simp [Scalar.kind]
    | _ => rfl
  obtain ⟨o, ho, hsame⟩ := compare?_of_kind (hvk.trans hwk.symm) hvn hwn
  rw [equals_of_compare? (hnull hvk) (hnull hwk) ho, hsame]

end Value

namespace Table

variable {T : EntityType} {s : Schema} {d : Declaration} {key : String} {v : Value}
  {op : Operation} {e : Entity} {rows rows' : List Entity} {row : Entity} {u : Undo} {k m : Int64}

/-! ### Deletion and search -/

/-- Of the elements that satisfy a predicate, the first is taken out. -/
lemma filter_eraseP {α : Type} (p : α → Bool) (l : List α) :
    (l.eraseP p).filter p = (l.filter p).tail := by
  induction l with
  | nil => rfl
  | cons a l ih =>
    by_cases ha : p a
    · rw [List.eraseP_cons_of_pos ha, List.filter_cons_of_pos ha, List.tail_cons]
    · rw [List.eraseP_cons_of_neg ha, List.filter_cons_of_neg ha, List.filter_cons_of_neg ha, ih]

/-- A deletion takes out the first row under the key. -/
lemma rows_delete (hv : s.keyOf T e = .ok v) :
    (delete T s e rows).rows = rows.eraseP (hasKey T s.key v) := by
  unfold delete
  rw [hv]
  dsimp only
  rcases hfind : find? T s.key v rows with _ | ⟨i, row⟩
  · exact (List.eraseP_of_forall_not (by simpa using find?_eq_none hfind)).symm
  · obtain ⟨hrow, before, after, rfl, rfl, hbefore⟩ := find?_eq_some_append hfind
    dsimp only
    rw [List.eraseP_append_right _ (by simpa using hbefore), List.eraseP_cons_of_pos hrow,
      List.eraseIdx_append_of_length_le (Nat.le_refl _), Nat.sub_self, List.eraseIdx_cons_zero]

/-- A search by a value of the key field finds the rows under it. -/
lemma select_key {f : FieldKind} (hf : d.fields.lookup key = some f)
    (hrows : ∀ row ∈ rows, d.Fits row.scalars) (hv : f.Shows v) (hnan : v.isNaN = false)
    (hnans : ∀ row ∈ rows, keyIsNaN d.type key row = false) :
    select d.type (.binary .eq (.field key) (.constant v)) rows =
      .ok (rows.filter (hasKey d.type key v)) := by
  have hsat : ∀ row ∈ rows, Expr.satisfied d.type row (.binary .eq (.field key) (.constant v)) =
      .ok (hasKey d.type key v row) := by
    intro row hrow
    obtain ⟨w, hw, hshows⟩ := (hrows row hrow).shows key f hf
    have hread? : d.type.read? row key = some w := hw
    have hwn : w.isNaN = false := by rw [← keyIsNaN_eq hread?, hnans row hrow]
    simp only [Expr.satisfied, Expr.eval, bind, Except.bind, EntityType.read, hread?, Value.binary,
      Value.equals_of_shows hshows hv hwn hnan, hasKey]
    rfl
  rcases select_cases d.type (.binary .eq (.field key) (.constant v)) rows with
    ⟨-, hselect⟩ | ⟨err, -, row, hrow, herr⟩
  · rw [hselect]
    refine congrArg _ (List.filter_congr fun row hrow => ?_)
    simp [Expr.holds, hsat row hrow, Except.toOption]
  · rw [hsat row hrow] at herr
    cases herr

/-! ### Keys that are not repeated -/

/-- No row is under the key of one before it. -/
def Unrepeated (T : EntityType) (key : String) (rows : List Entity) : Prop :=
  rows.Pairwise fun r r' => ∀ v, T.read? r key = some v → hasKey T key v r' = false

/-- Under each key there is at most one row. -/
lemma Unrepeated.tail_filter (h : Unrepeated T key rows) (v : Value) :
    (rows.filter (hasKey T key v)).tail = [] := by
  have hpairs := h.filter (hasKey T key v)
  rcases hfilter : rows.filter (hasKey T key v) with _ | ⟨r, _ | ⟨r', rest⟩⟩
  · rfl
  · rfl
  · have hkey : ∀ x ∈ [r, r'], ∃ u, T.read? x key = some u ∧ u.same v = true := by
      intro x hx
      have hx : x ∈ rows.filter (hasKey T key v) := by
        rw [hfilter]
        exact List.mem_append_left rest hx
      have hkey := (List.mem_filter.mp hx).2
      obtain ⟨u, hu⟩ := exists_read?_of_hasKey hkey
      rw [hasKey, hu] at hkey
      exact ⟨u, hu, hkey⟩
    obtain ⟨u, hu, hsame⟩ := hkey r (by simp)
    obtain ⟨u', hu', hsame'⟩ := hkey r' (by simp)
    rw [hfilter] at hpairs
    have hnot := (List.pairwise_cons.mp hpairs).1 r' (by simp) u hu
    rw [hasKey, hu'] at hnot
    exact absurd (Value.same_trans hsame' (Value.same_symm hsame)) (by simp [hnot])

end Table

/-- The key of a row that was created. -/
def Undo.created? : Undo → Option Value
  | .created _ _ v => some v
  | _ => none

namespace Table

variable {T : EntityType} {s : Schema} {d : Declaration} {key : String} {v : Value}
  {op : Operation} {e : Entity} {rows rows' : List Entity} {row : Entity} {u : Undo} {k m : Int64}

/-- A row created under a new key repeats none; other writes give no row another key. -/
lemma Edit.unrepeated (h : Edit T key v rows rows' u)
    (hnew : ∀ w, u.created? = some w → ∀ r ∈ rows, hasKey T key w r = false)
    (hrows : Unrepeated T key rows) : Unrepeated T key rows' := by
  cases h with
  | @created _ row shows =>
    refine List.pairwise_append.mpr ⟨hrows, List.pairwise_singleton _ _, fun r hr r' hr' w hw => ?_⟩
    obtain rfl := List.mem_singleton.mp hr'
    have hnot := hnew v rfl r hr
    rw [hasKey, hw] at hnot
    rw [hasKey, shows]
    exact Bool.eq_false_iff.mpr fun hsame => by simp [Value.same_symm hsame] at hnot
  | @updated before after row row' shows keeps =>
    have hkeeps : ∀ w, hasKey T key w row' = hasKey T key w row := by
      intro w
      rw [hasKey, hasKey, shows, keeps]
    simp only [Unrepeated, List.pairwise_append, List.pairwise_cons, List.mem_cons] at hrows ⊢
    obtain ⟨hbefore, ⟨hrow, hafter⟩, hacross⟩ := hrows
    refine ⟨hbefore, ⟨fun r hr w hw => ?_, hafter⟩, fun r hr r' hr' w hw => ?_⟩
    · exact hrow r hr w (shows.trans (keeps.symm.trans hw))
    · rcases hr' with rfl | hr'
      · rw [hkeeps]
        exact hacross r hr row (.inl rfl) w hw
      · exact hacross r hr r' (.inr hr') w hw
  | deleted => exact hrows.sublist ((List.Sublist.refl _).append (List.sublist_cons_self _ _))

/-- A key that goes through the search for the greatest is a null, or an integer not beyond it. -/
lemma keys_of_foldlM (h : rows.foldlM (greaterKey T s) m = .ok k) :
    m ≤ k ∧ ∀ r ∈ rows, ∃ v, T.read? r s.key = some v ∧ (v = .null ∨ ∃ j, v = .int j ∧ j ≤ k) := by
  induction rows generalizing m with
  | nil =>
    cases h
    exact ⟨Int64.le_refl _, by simp⟩
  | cons r rows ih =>
    rw [List.foldlM_cons] at h
    obtain ⟨m', hm', h⟩ := except_bind_eq_ok.mp h
    obtain ⟨hle, hrest⟩ := ih h
    obtain ⟨v, hv, hm'⟩ := except_bind_eq_ok.mp hm'
    have hkey : m ≤ m' ∧ (v = .null ∨ ∃ j, v = .int j ∧ j ≤ m') := by
      cases v with
      | null => cases hm'; exact ⟨Int64.le_refl _, .inl rfl⟩
      | int j =>
        have hm' : (if m < j then j else m) = m' := Except.ok.inj hm'
        subst hm'
        split
        · rename_i hlt
          exact ⟨Int64.le_of_lt hlt, .inr ⟨_, rfl, Int64.le_refl _⟩⟩
        · rename_i hlt
          exact ⟨Int64.le_refl _, .inr ⟨_, rfl, Int64.not_lt.mp hlt⟩⟩
      | _ => cases hm'
    refine ⟨Int64.le_trans hkey.1 hle, List.forall_mem_cons.mpr ⟨?_, hrest⟩⟩
    refine ⟨v, EntityType.read_eq_ok hv, hkey.2.imp_right ?_⟩
    rintro ⟨j, rfl, hj⟩
    exact ⟨j, rfl, Int64.le_trans hj hle⟩

/-- A generated key is new to the table: no row is under it. -/
lemma nextKey_new {k : Int64} (h : nextKey T s rows = .ok k) :
    ∀ r ∈ rows, ∃ v, T.read? r s.key = some v ∧ (v = .null ∨ ∃ j, v = .int j ∧ j ≠ k) := by
  obtain ⟨most, hmost, h⟩ := except_bind_eq_ok.mp h
  have hk : k.toInt = most.toInt + 1 := by
    rcases hfit : fit? (most.toInt + 1) with _ | k'
    · rw [hfit] at h; cases h
    · rw [hfit] at h
      cases h
      unfold fit? at hfit
      split at hfit <;> cases hfit
      have hmin : -2 ^ 63 ≤ Int64.minValue.toInt := by decide
      have hmax : Int64.maxValue.toInt < 2 ^ 63 := by decide
      exact Int64.toInt_ofInt_of_le (by omega) (by omega)
  intro r hr
  obtain ⟨v, hv, hkey⟩ := (keys_of_foldlM hmost).2 r hr
  refine ⟨v, hv, hkey.imp_right ?_⟩
  rintro ⟨j, rfl, hj⟩
  refine ⟨j, rfl, ?_⟩
  rintro rfl
  rw [Int64.le_iff_toInt_le] at hj
  omega

/-! ### Writes on a table -/

lemma fits_overwrite {fields : List String} (hrow : d.Fits row.scalars) :
    d.Fits (overwrite d.type e fields row).1.scalars := by
  induction fields generalizing row with
  | nil => exact hrow
  | cons f fields ih =>
    rw [overwrite]
    rcases hstep : d.type.read e f >>= d.type.assign row f with err | row'
    · exact hrow
    · obtain ⟨v, -, hassign⟩ := except_bind_eq_ok.mp hstep
      exact ih (hrow.of_assign hassign)

lemma fits_create (hrows : ∀ row ∈ rows, d.Fits row.scalars) :
    ∀ row ∈ (create d.type s e rows).rows, d.Fits row.scalars := by
  unfold create
  rcases hc : creation d.type s rows e with err | c
  · exact hrows
  · refine List.forall_mem_append.mpr ⟨hrows, List.forall_mem_singleton.mpr ?_⟩
    exact Schema.fits_snapshot (creation_eq_ok hc).2.1

lemma fits_update (hrows : ∀ row ∈ rows, d.Fits row.scalars) :
    ∀ row ∈ (update d.type s e rows).rows, d.Fits row.scalars := by
  unfold update
  rcases s.keyOf d.type e with err | v
  · exact hrows
  dsimp only
  rcases hfind : find? d.type s.key v rows with _ | ⟨i, before⟩
  · exact hrows
  have hset : ∀ row ∈ rows.set i (overwrite d.type e s.persistedWithoutKey before).1,
      d.Fits row.scalars := by
    intro row hrow
    rcases List.mem_or_eq_of_mem_set hrow with hrow | rfl
    · exact hrows row hrow
    · exact fits_overwrite (hrows before (List.mem_of_getElem? (find?_eq_some hfind)))
  dsimp only
  rcases hover : overwrite d.type e s.persistedWithoutKey before with ⟨row, _ | err⟩ <;>
    simpa only [hover] using hset

lemma fits_delete (hrows : ∀ row ∈ rows, d.Fits row.scalars) :
    ∀ row ∈ (delete d.type s e rows).rows, d.Fits row.scalars := by
  unfold delete
  rcases s.keyOf d.type e with err | v
  · exact hrows
  dsimp only
  rcases find? d.type s.key v rows with _ | ⟨i, row⟩
  · exact hrows
  · exact fun row hrow => hrows row (List.mem_of_mem_eraseIdx hrow)

/-- Writes keep the rows of a table well-typed. -/
lemma fits_write (hrows : ∀ row ∈ rows, d.Fits row.scalars) :
    ∀ row ∈ (write d.type s op e rows).rows, d.Fits row.scalars := by
  cases op with
  | insert => exact fits_create hrows
  | update => exact fits_update hrows
  | delete => exact fits_delete hrows

/-- Only a creation is undone by taking out a row. -/
lemma exists_creation (h : (write T s op e rows).undo.bind Undo.created? = some v) :
    ∃ c, creation T s rows e = .ok c ∧ c.key = v := by
  cases op with
  | insert =>
    have h : (create T s e rows).undo.bind Undo.created? = some v := h
    unfold create at h
    rcases hc : creation T s rows e with err | c
    · rw [hc] at h; cases h
    · rw [hc] at h; exact ⟨c, rfl, Option.some.inj h⟩
  | update =>
    have h : (update T s e rows).undo.bind Undo.created? = some v := h
    unfold update at h
    split at h
    · cases h
    · split at h
      · cases h
      · split at h <;> cases h
  | delete =>
    have h : (delete T s e rows).undo.bind Undo.created? = some v := h
    unfold delete at h
    split at h
    · cases h
    · split at h <;> cases h

/-- A row created under a generated key is the only one under it. -/
lemma new_of_generated (hs : s.IsOf d.type) (hg : s.generated = true) (he : d.Fits e.scalars)
    (h : (write d.type s op e rows).undo.bind Undo.created? = some v) :
    ∀ r ∈ rows, hasKey d.type s.key v r = false := by
  obtain ⟨c, hc, rfl⟩ := exists_creation h
  obtain ⟨hkeyed, hrow, hkey⟩ := creation_eq_ok hc
  rw [keyed, if_pos hg] at hkeyed
  obtain ⟨k, hnext, hassign⟩ := except_bind_eq_ok.mp hkeyed
  rw [Schema.snapshot_eq hs (he.of_assign hassign)] at hrow
  obtain ⟨r, hput, hentity⟩ := Declarations.assign_eq_ok hassign
  obtain ⟨f, w, -, hstored, rfl⟩ := Declaration.put_eq_ok hput
  have hw : c.key = w := by
    have hlookup : (e.scalars.put s.key w).lookup s.key = some c.key := by
      have hread : c.row.scalars.lookup s.key = some c.key := EntityType.read_eq_ok hkey
      rwa [← Except.ok.inj hrow, hentity] at hread
    rw [Record.lookup_put, if_pos rfl] at hlookup
    obtain ⟨_, -, hw⟩ := Option.map_eq_some_iff.mp hlookup
    exact hw.symm
  intro r hr
  obtain ⟨v, hv, hother⟩ := nextKey_new hnext r hr
  rw [hasKey, hv, hw]
  exact FieldKind.not_same_stored hstored hother

end Table

namespace Adapter

variable {Γ : Declarations} {a : Adapter} {t : MemoryTable} {x : Turn} {xs : List Turn}
  {e : Entity} {tx : Transaction} {v : Value} {w w' : World}

/-- No creation goes through under a key that a row has already. -/
def createsAnew (a : Adapter) (t : MemoryTable) : List Turn → World → Bool
  | [], _ => true
  | x :: xs, w =>
    ((a.undoOf t x w).bind Undo.created?).all
      (fun v => (w.rows t.name).all fun r => !Table.hasKey a.type a.schema.key v r) &&
        createsAnew a t xs (a.turn x w)

/-- A write leaves the rows alone, or is that of the table. -/
lemma rows_turn (hm : a.storage = .memory t) (x : Turn) (w : World) :
    (a.turn x w).rows t.name = w.rows t.name ∨ (a.turn x w).rows t.name =
      (Table.write a.type a.schema x.op x.entity (w.rows t.name)).rows := by
  rcases write_cases hm x.tx x.op x.entity w with ⟨err, w', hw, htables⟩ | ⟨w', hw, htables⟩
  · rw [turn, hw, World.rows_of_tables htables]
    exact .inl rfl
  · rw [turn, hw, rows_of_put htables, Function.update_self]
    exact .inr rfl

lemma fits_turns (ha : a.Declared Γ) (hm : a.storage = .memory t)
    (hw : ∀ row ∈ w.rows t.name, (Γ.of a.type.name).Fits row.scalars) :
    ∀ row ∈ (a.turns xs w).rows t.name, (Γ.of a.type.name).Fits row.scalars := by
  induction xs generalizing w with
  | nil => exact hw
  | cons x xs ih =>
    refine ih ?_
    rcases rows_turn hm x w with hrows | hrows
    · rw [hrows]; exact hw
    · intro row hrow
      have hT : a.type = (Γ.of a.type.name).type := ha.type
      rw [hrows, hT] at hrow
      exact Table.fits_write hw row hrow

/-- Where keys are generated or new, no write repeats one. -/
lemma unrepeated_turn (ha : a.Declared Γ) (hm : a.storage = .memory t)
    (he : (Γ.of a.type.name).Fits x.entity.scalars)
    (hnew : ∀ v, (a.undoOf t x w).bind Undo.created? = some v →
      ∀ r ∈ w.rows t.name, Table.hasKey a.type a.schema.key v r = false)
    (hw : Table.Unrepeated a.type a.schema.key (w.rows t.name)) :
    Table.Unrepeated a.type a.schema.key ((a.turn x w).rows t.name) := by
  rcases rows_turn hm x w with hrows | hrows
  · rwa [hrows]
  · have hT : a.type = (Γ.of a.type.name).type := ha.type
    have hs : a.schema.IsOf (Γ.of a.type.name).type := hT ▸ ha.schema
    have hedits : (Table.write (Γ.of a.type.name).type a.schema x.op x.entity (w.rows t.name)).Edits
        (Γ.of a.type.name).type a.schema.key (w.rows t.name) := Table.write_edits hs he x.op
    rw [← hT] at hedits
    rw [hrows]
    rcases hedits with ⟨-, hsame⟩ | ⟨v, u, hundo, hedit⟩
    · rwa [hsame]
    · refine hedit.unrepeated (fun v hv => hnew v ?_) hw
      rw [undoOf, hundo]
      exact hv

lemma unrepeated_turns (ha : a.Declared Γ) (hm : a.storage = .memory t)
    (hfits : ∀ x ∈ xs, (Γ.of a.type.name).Fits x.entity.scalars)
    (hnew : a.schema.generated = true ∨ a.createsAnew t xs w = true)
    (hw : Table.Unrepeated a.type a.schema.key (w.rows t.name)) :
    Table.Unrepeated a.type a.schema.key ((a.turns xs w).rows t.name) := by
  induction xs generalizing w with
  | nil => exact hw
  | cons x xs ih =>
    have hT : a.type = (Γ.of a.type.name).type := ha.type
    have hs : a.schema.IsOf (Γ.of a.type.name).type := hT ▸ ha.schema
    have hx : ∀ v, (a.undoOf t x w).bind Undo.created? = some v →
        ∀ r ∈ w.rows t.name, Table.hasKey a.type a.schema.key v r = false := by
      intro v hv
      rcases hnew with hg | hnew
      · rw [undoOf, hT] at hv
        rw [hT]
        exact Table.new_of_generated hs hg (hfits x (by simp)) hv
      · rw [createsAnew, Bool.and_eq_true, hv] at hnew
        simpa using hnew.1
    refine ih (fun y hy => hfits y (by simp [hy])) (hnew.imp_right fun hnew => ?_)
      (unrepeated_turn ha hm (hfits x (by simp)) hx hw)
    rw [createsAnew, Bool.and_eq_true] at hnew
    exact hnew.2

lemma rows_of_delete (hm : a.storage = .memory t) (hv : a.schema.keyOf a.type e = .ok v)
    (h : a.delete tx e w = (.ok (), w')) :
    w'.rows t.name = (w.rows t.name).eraseP (Table.hasKey a.type a.schema.key v) := by
  have hdelete : a.delete tx e =
      a.announce .delete e >>= fun _ => t.write tx (Table.delete a.type a.schema e) := by
    rw [delete, hm]
  rw [hdelete] at h
  rcases a.announced_cases .delete e t tx (Table.delete a.type a.schema e) w with
    ⟨err, w₁, hw₁, -⟩ | ⟨w₁, hw₁, htables⟩
  · cases h.symm.trans hw₁
  · obtain ⟨-, rfl⟩ := Prod.mk.inj (hw₁.symm.trans h)
    rw [rows_of_put htables, Function.update_self, Table.rows_delete hv]

lemma read_memory (hm : a.storage = .memory t) (p : Expr) (w : World) :
    a.read p w = (Table.select a.type p (w.rows t.name), w) := by
  rw [read, hm]
  rfl

/-- **What a deletion leaves under its key.** Writes are made in turn on a table of a declared type
that was empty. When a deletion goes through then, a search for the key finds what was under it but
for the first row; and that is nothing if keys are generated, or if none was created that a row had
already. Keys that are not numbers are left out. -/
theorem delete_vacates (ha : a.Declared Γ) (hm : a.storage = .memory t)
    (hempty : w.rows t.name = []) (hfits : ∀ x ∈ xs, (Γ.of a.type.name).Fits x.entity.scalars)
    (he : (Γ.of a.type.name).Fits e.scalars) (hv : a.schema.keyOf a.type e = .ok v)
    (hnan : v.isNaN = false)
    (hnans : ∀ row ∈ (a.turns xs w).rows t.name,
      Table.keyIsNaN a.type a.schema.key row = false)
    (hdelete : a.delete tx e (a.turns xs w) = (.ok (), w')) :
    ∃ found, a.read (.binary .eq (.field a.schema.key) (.constant v)) w' = (.ok found, w') ∧
      found = (((a.turns xs w).rows t.name).filter
        (Table.hasKey a.type a.schema.key v)).tail ∧
      (a.schema.generated = true ∨ a.createsAnew t xs w = true → found = []) := by
  have hT : a.type = (Γ.of a.type.name).type := ha.type
  have hs : a.schema.IsOf (Γ.of a.type.name).type := hT ▸ ha.schema
  obtain ⟨k, v', hk, hv', hshows⟩ := hs.read_key he
  obtain rfl : v = v' := by
    have hread := EntityType.read_eq_ok hv
    rw [hT, hv'] at hread
    exact (Option.some.inj hread).symm
  have hrows := rows_of_delete hm hv hdelete
  have hleft : ∀ row ∈ w'.rows t.name, row ∈ (a.turns xs w).rows t.name := by
    rw [hrows]
    exact fun row hrow => List.mem_of_mem_eraseP hrow
  have htyped : ∀ row ∈ (a.turns xs w).rows t.name, (Γ.of a.type.name).Fits row.scalars :=
    fits_turns ha hm (by simp [hempty])
  have hselect := Table.select_key hk (fun row hrow => htyped row (hleft row hrow)) hshows hnan
    (fun row hrow => hT ▸ hnans row (hleft row hrow))
  rw [← hT, hrows, Table.filter_eraseP] at hselect
  refine ⟨_, ?_, rfl, fun hnew => ?_⟩
  · rw [read_memory hm, hrows, hselect]
  · refine Table.Unrepeated.tail_filter (unrepeated_turns ha hm hfits hnew ?_) v
    rw [hempty]
    exact .nil

end Adapter

namespace Atlas

/-- No countries yet. -/
def blank : World where
  tables := [("countries", [])]
  backends := [(.memory "atlas", .journal none)]

/-- Each code is created once, and once again after it was deleted. -/
def gazetteer : List Turn :=
  [outside .insert "CH" "Swiss", outside .insert "DE" "Germany", outside .update "CH" "Switzerland",
    outside .delete "DE" "", outside .insert "DE" "Deutschland"]

lemma gazetteer_fits : ∀ x ∈ gazetteer, countryType.Fits x.entity.scalars := by
  simp only [gazetteer, List.forall_mem_cons, outside, List.not_mem_nil, false_implies,
    implies_true, and_true]
  exact ⟨country_fits _ _, country_fits _ _, country_fits _ _, country_fits _ _, country_fits _ _⟩

lemma gazetteer_rows : (countries.turns gazetteer blank).rows "countries" =
    [country "CH" "Switzerland", country "DE" "Deutschland"] := rfl

/-- Once it is deleted, Germany is not found. -/
theorem germany_vacated : ∃ w,
    countries.createsAnew ⟨"countries", some "atlas"⟩ gazetteer blank = true ∧
    countries.delete .autocommit (country "DE" "") (countries.turns gazetteer blank) = (.ok (), w) ∧
    countries.read (.binary .eq (.field "code") (.constant (.text "DE"))) w = (.ok [], w) := by
  have hmemory : countries.storage = .memory ⟨"countries", some "atlas"⟩ := rfl
  have hanew : countries.createsAnew ⟨"countries", some "atlas"⟩ gazetteer blank = true := rfl
  have hnans : ∀ row ∈ (countries.turns gazetteer blank).rows "countries",
      Table.keyIsNaN countries.type countries.schema.key row = false := by
    rw [gazetteer_rows]
    simp only [List.forall_mem_cons, List.not_mem_nil, false_implies, implies_true, and_true]
    exact ⟨rfl, rfl⟩
  have hdelete : countries.delete .autocommit (country "DE" "") (countries.turns gazetteer blank) =
      (.ok (), (countries.delete .autocommit (country "DE" "")
        (countries.turns gazetteer blank)).2) := rfl
  obtain ⟨found, hread, -, hfound⟩ := Adapter.delete_vacates countries_declared hmemory rfl
    gazetteer_fits (country_fits "DE" "") rfl rfl hnans hdelete
  rw [hfound (.inr hanew)] at hread
  exact ⟨_, hanew, hdelete, hread⟩

/-- Switzerland is created twice and deleted once, and a search still finds it. Of the stamps one is
deleted whose face value is not a number; there is none, but to search for it is refused. So is any
search by face value while a stamp is there whose face value is not a number. -/
theorem switzerland_left :
    (∃ w₁ w₂ w₃,
      countries.create .autocommit (country "CH" "Swiss") blank = (.ok (country "CH" "Swiss"), w₁) ∧
      countries.create .autocommit (country "CH" "Suisse") w₁ = (.ok (country "CH" "Suisse"), w₂) ∧
      countries.delete .autocommit (country "CH" "") w₂ = (.ok (), w₃) ∧
      countries.read (.binary .eq (.field "code") (.constant (.text "CH"))) w₃ =
        (.ok [country "CH" "Suisse"], w₃)) ∧
    (∃ w₁ w₂, Post.stamps.create .autocommit (Post.stamp (some 0.5) "rose") {} =
        (.ok (Post.stamp (some 0.5) "rose"), w₁) ∧
      Post.stamps.delete .autocommit (Post.stamp (some Post.nan) "") w₁ = (.ok (), w₂) ∧
      Post.stamps.read (.binary .eq (.field "face") (.constant (.float Post.nan))) w₂ =
        (refuse (.binaryUndefined "Eq" .float .float), w₂)) ∧
    ∃ w₁ w₂ w₃, Post.stamps.create .autocommit (Post.stamp (some Post.nan) "blot") {} =
        (.ok (Post.stamp (some Post.nan) "blot"), w₁) ∧
      Post.stamps.create .autocommit (Post.stamp (some 0.5) "rose") w₁ =
        (.ok (Post.stamp (some 0.5) "rose"), w₂) ∧
      Post.stamps.delete .autocommit (Post.stamp (some 0.5) "") w₂ = (.ok (), w₃) ∧
      Post.stamps.read (.binary .eq (.field "face") (.constant (.float 0.5))) w₃ =
        (refuse (.binaryUndefined "Eq" .float .float), w₃) :=
  ⟨⟨_, _, _, rfl, rfl, rfl, rfl⟩, ⟨_, _, rfl, rfl, rfl⟩, _, _, _, rfl, rfl, rfl, rfl⟩

end Atlas

end EntityStore
