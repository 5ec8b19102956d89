import EntityStore.Entity.Schema
import Mathlib.Data.List.Nodup
import Mathlib.Tactic.Lemma

/-!
Well-typed entities: each declared field holds a value that its kind shows, and each navigation
holds well-typed entities of the type it names.

A kind takes back what it shows, and shows it again unchanged; so a well-typed entity can be read,
copied and written over another without a refusal.
-/

namespace EntityStore

open Calendar

/-! ### Values of a kind -/

/-- The kind of the values of a field, nulls apart. -/
def Scalar.kind : Scalar → Kind
  | bool => .bool
  | integer | enumeration => .integer
  | float => .float
  | text => .text
  | dateTime => .datetime

namespace FieldKind

/-- The value is the one that some content of a field of the kind shows. -/
def Shows (k : FieldKind) (v : Value) : Prop := ∃ c, v = k.toValue c

/-- A field shows nulls and values of its kind. -/
lemma eq_null_or_kind_eq {k : FieldKind} {v : Value} (h : k.Shows v) :
    v = .null ∨ v.kind = k.type.scalar.kind := by
  obtain ⟨c, rfl⟩ := h
  induction k with
  | optional k ih =>
    rcases c with _ | c
    · exact .inl rfl
    · exact ih c
  | _ => exact .inr rfl

lemma int32_of_int64 (i : Int32) :
    (if Int32.minValue.toInt ≤ i.toInt64.toInt ∧ i.toInt64.toInt ≤ Int32.maxValue.toInt then
      some (Int32.ofInt i.toInt64.toInt) else none) = some i := by
  rw [Int32.toInt_toInt64, if_pos ⟨i.minValue_le_toInt, i.toInt_le⟩, Int32.ofInt_toInt]

lemma uint32_of_int64 (n : UInt32) :
    (if 0 ≤ (Int64.ofNat n.toNat).toInt ∧ (Int64.ofNat n.toNat).toInt < UInt32.size then
      some (UInt32.ofNat (Int64.ofNat n.toNat).toInt.toNat) else none) = some n := by
  have hn := n.toNat_lt_size
  have hsize : UInt32.size < 2 ^ 63 := by decide
  rw [Int64.toInt_ofNat_of_lt (by omega), if_pos (by omega)]
  simp

/-- A kind takes back what it shows. Of a null in a twofold optional field it keeps less, but
nothing that shows. -/
lemma ofValue?_toValue (k : FieldKind) (c : k.Content) :
    ∃ c', k.ofValue? (k.toValue c) = some c' ∧ k.toValue c' = k.toValue c := by
  induction k with
  | bool => exact ⟨c, rfl, rfl⟩
  | int32 => exact ⟨c, int32_of_int64 c, rfl⟩
  | int64 => exact ⟨c, rfl, rfl⟩
  | uint32 => exact ⟨c, uint32_of_int64 c, rfl⟩
  | float => exact ⟨c, rfl, rfl⟩
  | text => exact ⟨c, rfl, rfl⟩
  | dateTime => exact ⟨c, rfl, rfl⟩
  | date => exact ⟨c, rfl, rfl⟩
  | enumeration e =>
    refine ⟨c, ?_, rfl⟩
    simp only [toValue, ofValue?, integer?, Option.bind_some]
    exact dif_pos c.2
  | optional k ih =>
    rcases c with _ | c
    · exact ⟨none, rfl, rfl⟩
    · obtain ⟨c', h, hc'⟩ := ih c
      have hv : (optional k).toValue (some c) = k.toValue c := rfl
      by_cases hn : (k.toValue c).isNull
      · refine ⟨none, by simp [hv, ofValue?, hn], ?_⟩
        rw [hv]
        cases hk : k.toValue c <;> simp_all [toValue, Value.isNull]
      · exact ⟨some c', by simp only [hv, ofValue?, hn, h]; rfl, hc'⟩

lemma shows_initial (k : FieldKind) : k.Shows (k.toValue k.initial) := ⟨_, rfl⟩

lemma shows_of_stored {k : FieldKind} {field : String} {v w : Value}
    (h : k.stored field v = .ok w) : k.Shows w := by
  unfold stored at h
  split at h
  · cases h; exact ⟨_, rfl⟩
  · cases h

/-- What a kind shows can be stored in a field of the kind, which then shows the same. -/
lemma stored_of_shows {k : FieldKind} {v : Value} (h : k.Shows v) (field : String) :
    k.stored field v = .ok v := by
  obtain ⟨c, rfl⟩ := h
  obtain ⟨c', hc', hv⟩ := ofValue?_toValue k c
  simp [stored, hc', hv]

end FieldKind

/-! ### Records -/

section Lookup

variable {α β : Type} (l : List (String × α)) (key other : String)

lemma lookup_map_snd (f : α → β) :
    (l.map fun p => (p.1, f p.2)).lookup key = (l.lookup key).map f := by
  induction l with
  | nil => rfl
  | cons p l ih =>
    obtain ⟨k, a⟩ := p
    simp only [List.map_cons, List.lookup_cons, ih]
    split <;> rfl

/-- Only the replaced entry looks different. -/
lemma lookup_replace (a : α) :
    (l.map fun p => if p.1 = key then (p.1, a) else p).lookup other =
      if other = key then (l.lookup key).map fun _ => a else l.lookup other := by
  induction l with
  | nil => simp
  | cons p l ih =>
    obtain ⟨k, b⟩ := p
    by_cases hk : k = key <;> by_cases ho : other = key
    · simp [hk, ho]
    · have hb : (other == key) = false := by simpa using ho
      simp [hk, ho, List.lookup_cons, hb, ih]
    · have hb : (key == k) = false := by simpa using fun e => hk e.symm
      rw [if_pos ho] at ih
      simp [hk, ho, List.lookup_cons, hb, ← ih]
    · simp only [List.map_cons, hk, ho, if_false, List.lookup_cons, ih]

lemma names_replace (a : α) :
    (l.map fun p => if p.1 = key then (p.1, a) else p).map Prod.fst = l.map Prod.fst := by
  rw [List.map_map]
  refine List.map_congr_left fun p _ => ?_
  simp only [Function.comp_apply]
  split <;> rfl

lemma lookup_isSome_iff : (l.lookup key).isSome ↔ key ∈ l.map Prod.fst := by
  induction l with
  | nil => simp
  | cons p l ih =>
    obtain ⟨k, a⟩ := p
    by_cases hk : key = k
    · simp [hk]
    · have hb : (key == k) = false := by simpa using hk
      simp only [List.map_cons, List.mem_cons, hk, false_or, ih, List.lookup_cons, hb]

lemma mem_of_lookup {a : α} (h : l.lookup key = some a) : (key, a) ∈ l := by
  obtain ⟨l₁, l₂, rfl, -⟩ := List.lookup_eq_some_iff.mp h
  simp

end Lookup

lemma Record.lookup_put (r : Record) (name other : String) (v : Value) :
    (r.put name v).lookup other =
      if other = name then (r.lookup name).map fun _ => v else r.lookup other :=
  lookup_replace r name other v

@[simp] lemma Record.names_put (r : Record) (name : String) (v : Value) :
    (r.put name v).map Prod.fst = r.map Prod.fst :=
  names_replace r name v

namespace Declaration

variable {d : Declaration} {r r' : Record} {field : String} {v : Value}

/-- The record holds the declared fields, and in each a value that its kind shows. -/
structure Fits (d : Declaration) (r : Record) : Prop where
  names : r.map Prod.fst = d.fields.map Prod.fst
  shows : ∀ field k, d.fields.lookup field = some k → ∃ v, r.lookup field = some v ∧ k.Shows v

lemma fits_blank (d : Declaration) : d.Fits d.type.blank where
  names := by simp [type]
  shows field k h := by
    refine ⟨k.toValue k.initial, ?_, k.shows_initial⟩
    have := lookup_map_snd d.fields field fun k : FieldKind => k.toValue k.initial
    simpa [type, h] using this

/-- A record that goes along with the declaration field by field is well-typed. -/
lemma fits_of_forall₂
    (h : List.Forall₂ (fun p q => q.1 = p.1 ∧ p.2.Shows q.2) d.fields r) : d.Fits r := by
  constructor
  · generalize d.fields = fields at h ⊢
    induction h with
    | nil => rfl
    | cons h _ ih => simp [h.1, ih]
  · generalize d.fields = fields at h ⊢
    induction h with
    | nil => simp
    | cons h _ ih =>
      intro field k hk
      rw [List.lookup_cons] at hk ⊢
      rw [h.1]
      split at hk
      · cases hk; exact ⟨_, rfl, h.2⟩
      · exact ih field k hk

lemma put_eq_ok (h : d.put r field v = .ok r') :
    ∃ k w, d.fields.lookup field = some k ∧ k.stored field v = .ok w ∧ r' = r.put field w := by
  unfold Declaration.put at h
  split at h
  · rename_i k hk
    rcases hs : k.stored field v with e | w
    · rw [hs] at h; cases h
    · rw [hs] at h; cases h
      exact ⟨k, w, hk, hs, rfl⟩
  · cases h

/-- Assigning a field keeps a record well-typed. -/
lemma Fits.put (hr : d.Fits r) (h : d.put r field v = .ok r') : d.Fits r' := by
  obtain ⟨k, w, hk, hw, rfl⟩ := put_eq_ok h
  refine ⟨by rw [Record.names_put, hr.names], fun f k' hk' => ?_⟩
  obtain ⟨u, hu, hs⟩ := hr.shows f k' hk'
  rw [Record.lookup_put]
  split
  · rename_i hf
    subst hf
    rw [hk] at hk'
    cases hk'
    exact ⟨w, by simp [hu], FieldKind.shows_of_stored hw⟩
  · exact ⟨u, hu, hs⟩

lemma Fits.lookup (hr : d.Fits r) (hf : field ∈ d.fields.map Prod.fst) :
    ∃ k v, d.fields.lookup field = some k ∧ r.lookup field = some v ∧ k.Shows v := by
  obtain ⟨k, hk⟩ := Option.isSome_iff_exists.mp ((lookup_isSome_iff _ _).mpr hf)
  obtain ⟨v, hv, hs⟩ := hr.shows field k hk
  exact ⟨k, v, hk, hv, hs⟩

/-- A value of a well-typed record can be assigned to any record of the declaration. -/
lemma put_of_shows {k : FieldKind} (hk : d.fields.lookup field = some k) (hs : k.Shows v)
    (r : Record) : d.put r field v = .ok (r.put field v) := by
  simp [Declaration.put, hk, FieldKind.stored_of_shows hs, Except.map]

end Declaration

/-! ### Entities -/

namespace EntityType

variable {T : EntityType} {e : Entity} {field : String}

lemma read_eq_ok {v : Value} (h : T.read e field = .ok v) : T.read? e field = some v := by
  unfold read at h
  split at h
  · rename_i v' hv
    cases h
    exact hv
  · cases h

lemma read_eq_error {err : Error} (h : T.read e field = .error err) :
    T.read? e field = none ∧ err = .unknownField T.name field := by
  unfold read at h
  split at h
  · cases h
  · rename_i hnone
    cases h
    exact ⟨hnone, rfl⟩

end EntityType

/-- The declared types of a program by name. -/
structure Declarations where
  of : String → Declaration
  name_of : ∀ name, (of name).name = name

namespace Declarations

def type (Γ : Declarations) (name : String) : EntityType := (Γ.of name).type

/-- The types of a list; a name that is not declared has no fields. -/
def ofList (ds : List Declaration) : Declarations where
  of name := (ds.find? (·.name = name)).getD ⟨name, [], [], by simp⟩
  name_of name := by
    rcases h : ds.find? (·.name = name) with _ | d
    · rw [h, Option.getD_none]
    · rw [h, Option.getD_some]
      simpa using List.find?_some h

@[simp] lemma name_type (Γ : Declarations) (name : String) : (Γ.type name).name = name :=
  Γ.name_of name

/-- The entity is one of the named type, and so are all those below it of theirs. -/
inductive Has (Γ : Declarations) : String → Entity → Prop
  | mk {name : String} {e : Entity} (scalars : (Γ.of name).Fits e.scalars)
    (names : e.children.map Prod.fst = (Γ.of name).navigations.map Navigation.name)
    (children : ∀ n ∈ (Γ.of name).navigations, ∀ c ∈ e.collection n.name, Γ.Has n.target c) :
    Γ.Has name e

variable {Γ : Declarations} {name : String} {e : Entity}

lemma Has.scalars (h : Γ.Has name e) : (Γ.of name).Fits e.scalars :=
  match h with | ⟨x, _, _⟩ => x

lemma Has.names (h : Γ.Has name e) :
    e.children.map Prod.fst = (Γ.of name).navigations.map Navigation.name :=
  match h with | ⟨_, x, _⟩ => x

lemma Has.children (h : Γ.Has name e) : ∀ n ∈ (Γ.of name).navigations,
    ∀ c ∈ e.collection n.name, Γ.Has n.target c :=
  match h with | ⟨_, _, x⟩ => x

end Declarations

namespace Entity

variable (e : Entity) (navigation other : String) (es : List Entity)

lemma collection_withCollection : (e.withCollection navigation es).collection other =
    if other = navigation then ((e.children.lookup navigation).map fun _ => es).getD []
    else e.collection other := by
  rw [collection, withCollection, lookup_replace]
  split <;> rfl

lemma collection_withCollection_of_ne {navigation other : String} (h : other ≠ navigation) :
    (e.withCollection navigation es).collection other = e.collection other := by
  rw [collection_withCollection, if_neg h]

lemma collection_withCollection_self {e : Entity} {navigation : String}
    (h : navigation ∈ e.children.map Prod.fst) (es : List Entity) :
    (e.withCollection navigation es).collection navigation = es := by
  obtain ⟨cs, hcs⟩ := Option.isSome_iff_exists.mp ((lookup_isSome_iff _ _).mpr h)
  rw [collection_withCollection, if_pos rfl, hcs]
  rfl

/-- Only a collection that the entity has can hold anything. -/
lemma mem_names_of_collection_ne_nil {e : Entity} {navigation : String}
    (h : e.collection navigation ≠ []) : navigation ∈ e.children.map Prod.fst := by
  rw [← lookup_isSome_iff]
  unfold collection at h
  rcases hl : e.children.lookup navigation with _ | cs
  · rw [hl] at h
    exact absurd rfl h
  · rfl

@[simp] lemma names_withCollection :
    (e.withCollection navigation es).children.map Prod.fst = e.children.map Prod.fst :=
  names_replace e.children navigation es

end Entity

namespace Declarations

variable {Γ : Declarations} {name : String} {e e' : Entity} {field : String} {v : Value}

lemma assign_eq_ok {T : EntityType} (h : T.assign e field v = .ok e') :
    ∃ r, T.set e.scalars field v = .ok r ∧ e' = { e with scalars := r } := by
  unfold EntityType.assign at h
  rcases hs : T.set e.scalars field v with err | r
  · rw [hs] at h; cases h
  · rw [hs] at h; cases h; exact ⟨r, rfl, rfl⟩

lemma Has.assign (h : Γ.Has name e) (ha : (Γ.type name).assign e field v = .ok e') :
    Γ.Has name e' := by
  obtain ⟨r, hr, rfl⟩ := assign_eq_ok ha
  obtain ⟨hs, hn, hc⟩ := h
  exact ⟨hs.put hr, hn, hc⟩

lemma Has.withCollection (h : Γ.Has name e) {n : Navigation}
    (hn : n ∈ (Γ.of name).navigations) {es : List Entity} (hes : ∀ c ∈ es, Γ.Has n.target c) :
    Γ.Has name (e.withCollection n.name es) := by
  obtain ⟨hs, hnames, hc⟩ := h
  refine ⟨hs, by rw [Entity.names_withCollection, hnames], fun m hm c hmem => ?_⟩
  rw [Entity.collection_withCollection] at hmem
  split at hmem
  · rename_i heq
    have hd := (List.nodup_append.mp (Γ.of name).distinct).2.1
    obtain rfl : m = n := List.inj_on_of_nodup_map hd hm hn heq
    rcases hl : e.children.lookup m.name with _ | cs
    · simp [hl] at hmem
    · rw [hl] at hmem; exact hes c hmem
  · exact hc m hm c hmem

end Declarations

/-! ### Layouts -/

namespace Schema

variable {s : Schema} {T : EntityType}

/-- The layout is one of the type, by convention or with a key of choice. -/
def IsOf (s : Schema) (T : EntityType) : Prop := ∃ key generated, Schema.of T key generated = .ok s

lemma IsOf.eq_withKey (h : s.IsOf T) : ∃ key generated, withKey T key generated = .ok s := by
  obtain ⟨key, generated, h⟩ := h
  rcases key with _ | key
  · rcases hk : conventionalKey T with e | key
    · simp only [Schema.of, hk] at h; cases h
    · simp only [Schema.of, hk] at h; exact ⟨key, generated, h⟩
  · exact ⟨key, generated, h⟩

/-- What a layout keeps of its type: every field is stored, and the key is one of them. -/
lemma IsOf.fields (h : s.IsOf T) : s.key ∈ T.fields.map Field.name ∧
    s.persisted = T.fields.map Field.name ∧
    s.persistedWithoutKey = (T.fields.filter (·.name ≠ s.key)).map Field.name := by
  obtain ⟨key, generated, h⟩ := h.eq_withKey
  unfold withKey at h
  split at h
  · cases h
  · rename_i f hf
    cases h
    have hname : f.name = key := by simpa using List.find?_some hf
    refine ⟨List.mem_map.mpr ⟨f, List.mem_of_find?_eq_some hf, hname⟩, ?_, ?_⟩
    · simp only [persisted, List.filter_append, List.map_append]
      rw [List.filter_eq_self.mpr, List.filter_eq_nil_iff.mpr] <;> simp
      intro g _
      split <;> simp
    · have hnav : (T.navigations.map fun n =>
          ({ name := n.name, type := none, role := .navigation } : Descriptor)).filter
            (·.role = .scalar) = [] := by
        rw [List.filter_eq_nil_iff]; simp
      simp only [persistedWithoutKey, List.filter_append, hnav,
        List.append_nil, List.filter_map, List.map_map]
      congr 1
      refine List.filter_congr fun g _ => ?_
      by_cases hg : g.name = key <;> simp [hg]

end Schema

end EntityStore
