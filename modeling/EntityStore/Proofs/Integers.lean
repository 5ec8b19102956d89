import EntityStore.Proofs.Declared

/-!
Integer fields. A well-typed entity has an integer or a null in such a field; an integer that is
assigned to it is kept as it is, or does not fit.
-/

namespace EntityStore

/-! ### Integer kinds -/

namespace FieldKind

variable {k : FieldKind} {v : Value} {i j : Int64}

/-- The field holds integers, perhaps nulls too, but no members of an enumeration. -/
def IsInteger (k : FieldKind) : Prop := k.type.scalar = .integer

lemma IsInteger.eq_null_or_int (hk : k.IsInteger) (h : k.Shows v) :
    v = .null ∨ ∃ i, v = .int i := by
  obtain ⟨c, rfl⟩ := h
  induction k with
  | int32 => exact .inr ⟨_, rfl⟩
  | int64 => exact .inr ⟨_, rfl⟩
  | uint32 => exact .inr ⟨_, rfl⟩
  | optional k ih =>
    rcases c with _ | c
    · exact .inl rfl
    · exact ih hk c
  | _ => cases hk

/-- The integer fits the field. -/
def Takes (k : FieldKind) (i : Int64) : Prop := ∃ c, k.ofValue? (.int i) = some c

lemma ofValue?_int32 (i : Int64) : int32.ofValue? (.int i) =
    if Int32.minValue.toInt ≤ i.toInt ∧ i.toInt ≤ Int32.maxValue.toInt then
      some (Int32.ofInt i.toInt) else none := rfl

lemma ofValue?_uint32 (i : Int64) : uint32.ofValue? (.int i) =
    if 0 ≤ i.toInt ∧ i.toInt < UInt32.size then some (UInt32.ofNat i.toInt.toNat) else none := rfl

lemma ofValue?_optional (i : Int64) :
    (optional k).ofValue? (.int i) = (k.ofValue? (.int i)).map some := rfl

lemma takes_optional : (optional k).Takes i ↔ k.Takes i := by
  constructor
  · rintro ⟨c, hc⟩
    obtain ⟨c', hc', -⟩ := Option.map_eq_some_iff.mp hc
    exact ⟨c', hc'⟩
  · rintro ⟨c, hc⟩
    exact ⟨some c, by rw [ofValue?_optional, hc]; rfl⟩

/-- Below a positive integer that fits, every positive one fits. -/
lemma IsInteger.takes_of_le (hk : k.IsInteger) (hi : k.Takes i) (hj : 0 < j) (hle : j ≤ i) :
    k.Takes j := by
  rw [Int64.lt_iff_toInt_lt] at hj
  rw [Int64.le_iff_toInt_le] at hle
  have hzero : (0 : Int64).toInt = 0 := rfl
  induction k with
  | int32 =>
    have hmin : Int32.minValue.toInt ≤ 0 := by decide
    obtain ⟨c, hc⟩ := hi
    rw [ofValue?_int32] at hc
    split at hc
    · refine ⟨Int32.ofInt j.toInt, ?_⟩
      exact if_pos (by omega)
    · cases hc
  | int64 => exact ⟨j, rfl⟩
  | uint32 =>
    obtain ⟨c, hc⟩ := hi
    rw [ofValue?_uint32] at hc
    split at hc
    · refine ⟨UInt32.ofNat j.toInt.toNat, ?_⟩
      exact if_pos (by omega)
    · cases hc
  | optional k ih => exact takes_optional.mpr (ih hk (takes_optional.mp hi))
  | _ => cases hk

/-- An integer that fits is shown as it is. -/
lemma IsInteger.toValue_eq (hk : k.IsInteger) {c : k.Content}
    (h : k.ofValue? (.int i) = some c) : k.toValue c = .int i := by
  induction k with
  | int32 =>
    rw [ofValue?_int32] at h
    split at h
    · rename_i hi
      cases h
      have hmax : Int32.maxValue.toInt < 2 ^ 31 := by decide
      have hround : (Int32.ofInt i.toInt).toInt64 = i := by
        rw [← Int64.toInt_inj, Int32.toInt_toInt64, Int32.toInt_ofInt_of_le hi.1 (by omega)]
      exact congrArg Value.int hround
    · cases h
  | int64 => cases h; rfl
  | uint32 =>
    rw [ofValue?_uint32] at h
    split at h
    · rename_i hi
      cases h
      have hround : Int64.ofNat (UInt32.ofNat i.toInt.toNat).toNat = i := by
        have hsize : UInt32.size = 2 ^ 32 := rfl
        rw [UInt32.toNat_ofNat_of_lt' (by omega), ← Int64.toInt_inj,
          Int64.toInt_ofNat_of_lt (by omega)]
        omega
      exact congrArg Value.int hround
    · cases h
  | optional k ih =>
    rw [ofValue?_optional] at h
    obtain ⟨c', hc', rfl⟩ := Option.map_eq_some_iff.mp h
    exact ih hk hc'
  | _ => cases hk

lemma IsInteger.stored_eq_ok (hk : k.IsInteger) {field : String}
    (h : k.stored field (.int i) = .ok v) : v = .int i := by
  unfold stored at h
  split at h
  · rename_i c hc
    cases h
    exact hk.toValue_eq hc
  · cases h

lemma IsInteger.shows_of_takes (hk : k.IsInteger) (h : k.Takes i) : k.Shows (.int i) := by
  obtain ⟨c, hc⟩ := h
  exact ⟨c, (hk.toValue_eq hc).symm⟩

lemma stored_of_not_takes (h : ¬ k.Takes i) (field : String) :
    k.stored field (.int i) = .error (.materialization field (.int i)) := by
  unfold stored
  split
  · rename_i c hc; exact absurd ⟨c, hc⟩ h
  · rfl

end FieldKind

/-! ### Integer fields -/

/-- Under the same distinct names there is the same. -/
lemma eq_of_lookup_eq {α : Type} {l l' : List (String × α)} (hd : (l.map Prod.fst).Nodup)
    (hnames : l'.map Prod.fst = l.map Prod.fst)
    (h : ∀ name ∈ l.map Prod.fst, l.lookup name = l'.lookup name) : l = l' := by
  induction l generalizing l' with
  | nil => simpa using hnames.symm
  | cons p l ih =>
    obtain ⟨name, a⟩ := p
    rcases l' with _ | ⟨⟨name', a'⟩, l'⟩
    · cases hnames
    · rw [List.map_cons, List.map_cons, List.cons.injEq] at hnames
      obtain ⟨hname, htail⟩ := hnames
      dsimp only at hname
      subst hname
      rw [List.map_cons, List.nodup_cons] at hd
      have ha := h name' (by simp)
      simp only [List.lookup_cons_self, Option.some.injEq] at ha
      have hrest : l = l' := by
        refine ih hd.2 htail fun other ho => ?_
        have hne : (other == name') = false := by
          rw [beq_eq_false_iff_ne]
          rintro rfl
          exact hd.1 ho
        have := h other (by simp [ho])
        simpa [List.lookup_cons, hne] using this
      rw [ha, hrest]

/-- The integer in a field; a null is none. -/
def Record.integer? (r : Record) (field : String) : Option Int64 :=
  match r.lookup field with
  | some (.int i) => some i
  | _ => none

/-- What an integer field shows. -/
def Value.ofInteger? : Option Int64 → Value
  | some i => .int i
  | none => .null

lemma Value.same_ofInteger? (a b : Option Int64) :
    (ofInteger? a).same (ofInteger? b) = decide (a = b) := by
  cases a <;> cases b <;> simp [ofInteger?, same]
  rfl

lemma Value.equals_ofInteger? (a : Option Int64) (i : Int64) :
    (ofInteger? a).equals (.int i) = .ok (decide (a = some i)) := by
  rcases a with _ | j
  · rfl
  · have hc : (compare j i == .eq) = decide (some j = some i) := by
      rw [beq_eq_decide]
      exact decide_eq_decide.mpr (Std.LawfulEqOrd.compare_eq_iff_eq.trans Option.some_inj.symm)
    rw [← hc]
    rfl

lemma Record.integer?_put_self {r : Record} {field : String} (h : field ∈ r.map Prod.fst)
    (i : Int64) : (r.put field (.int i)).integer? field = some i := by
  obtain ⟨v, hv⟩ := Option.isSome_iff_exists.mp ((lookup_isSome_iff _ _).mpr h)
  rw [integer?, lookup_put, if_pos rfl, hv]
  rfl

lemma Record.integer?_put_of_ne {field other : String} (h : other ≠ field) (r : Record)
    (v : Value) : (r.put field v).integer? other = r.integer? other := by
  rw [integer?, lookup_put, if_neg h, integer?]

/-- The entity with an integer in a field. -/
def Entity.withInteger (e : Entity) (field : String) (i : Int64) : Entity :=
  { e with scalars := e.scalars.put field (.int i) }

/-- The entity as it is stored: its scalars, and no children. -/
def EntityType.bare (T : EntityType) (e : Entity) : Entity := ⟨e.scalars, T.fresh.children⟩

namespace Declaration

variable {d : Declaration} {r r' : Record} {e e' row : Entity} {field : String} {i : Int64}

/-- The field is declared with integers. -/
def HasInteger (d : Declaration) (field : String) : Prop :=
  ∃ k, d.fields.lookup field = some k ∧ k.IsInteger

lemma Fits.lookup_integer (hr : d.Fits r) (hf : d.HasInteger field) :
    r.lookup field = some (.ofInteger? (r.integer? field)) := by
  obtain ⟨k, hk, hint⟩ := hf
  obtain ⟨v, hv, hshow⟩ := hr.shows field k hk
  rcases hint.eq_null_or_int hshow with rfl | ⟨i, rfl⟩ <;> rw [Record.integer?, hv] <;> rfl

lemma Fits.read_integer (he : d.Fits e.scalars) (hf : d.HasInteger field) :
    d.type.read e field = .ok (.ofInteger? (e.scalars.integer? field)) := by
  have hv : d.type.read? e field = _ := he.lookup_integer hf
  rw [EntityType.read, hv]

lemma Fits.hasKey_eq (hr : d.Fits row.scalars) (hf : d.HasInteger field) (i : Option Int64) :
    Table.hasKey d.type field (.ofInteger? i) row = decide (row.scalars.integer? field = i) := by
  have hv : d.type.read? row field = _ := hr.lookup_integer hf
  rw [Table.hasKey, hv]
  exact Value.same_ofInteger? _ _

lemma HasInteger.mem_names (hf : d.HasInteger field) (hr : d.Fits r) : field ∈ r.map Prod.fst := by
  rw [← lookup_isSome_iff, hr.lookup_integer hf]
  rfl

/-- An integer is assigned as it is, or does not fit. -/
lemma assign_integer (hf : d.HasInteger field) (h : d.type.assign e field (.int i) = .ok e') :
    e' = e.withInteger field i := by
  obtain ⟨k, hk, hint⟩ := hf
  obtain ⟨r, hr, rfl⟩ := Declarations.assign_eq_ok h
  obtain ⟨k', v, hk', hs, rfl⟩ := put_eq_ok hr
  obtain rfl : k = k' := Option.some.inj (hk.symm.trans hk')
  rw [hint.stored_eq_ok hs]
  rfl

lemma assign_of_takes {k : FieldKind} (hk : d.fields.lookup field = some k) (hint : k.IsInteger)
    (h : k.Takes i) (e : Entity) :
    d.type.assign e field (.int i) = .ok (e.withInteger field i) := by
  have hput : d.type.set e.scalars field (.int i) = .ok (e.scalars.put field (.int i)) :=
    put_of_shows hk (hint.shows_of_takes h) e.scalars
  rw [EntityType.assign, hput]
  rfl

lemma assign_of_not_takes {k : FieldKind} (hk : d.fields.lookup field = some k)
    (h : ¬ k.Takes i) (e : Entity) :
    d.type.assign e field (.int i) = .error (.materialization field (.int i)) := by
  simp [EntityType.assign, type, put, hk, FieldKind.stored_of_not_takes h, Except.map]

lemma Fits.of_assign (he : d.Fits e.scalars) {v : Value} (h : d.type.assign e field v = .ok e') :
    d.Fits e'.scalars := by
  obtain ⟨r, hr, rfl⟩ := Declarations.assign_eq_ok h
  exact he.put hr

/-- Records of one declaration that show the same are the same. -/
lemma Fits.eq_of_lookup (hr : d.Fits r) (hr' : d.Fits r')
    (h : ∀ f ∈ d.fields.map Prod.fst, r.lookup f = r'.lookup f) : r = r' := by
  have hd : (d.fields.map Prod.fst).Nodup := (List.nodup_append.mp d.distinct).1
  rw [← hr.names] at h hd
  exact eq_of_lookup_eq hd (by rw [hr.names, hr'.names]) h

end Declaration

end EntityStore
