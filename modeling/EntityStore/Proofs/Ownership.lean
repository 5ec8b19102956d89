import EntityStore.Proofs.Retrieval
import Mathlib.Data.List.Chain
import Mathlib.Logic.Relation

/-!
Which rows belong to which. A join compares a field of the parent with one of the child, so the rows
of all tables make a graph. Where no circle is reached, a way through the graph passes no row twice,
so it is no longer than there are rows.
-/

namespace EntityStore

open Fallible

/-! ### Joined fields -/

namespace FieldKind

/-- The field holds texts, perhaps nulls too. -/
def IsText (k : FieldKind) : Prop := k.type.scalar = .text

lemma IsText.eq_null_or_text {k : FieldKind} {v : Value} (hk : k.IsText) (h : k.Shows v) :
    v = .null ∨ ∃ s, v = .text s := by
  obtain ⟨c, rfl⟩ := h
  induction k with
  | text => exact .inr ⟨_, rfl⟩
  | optional k ih =>
    rcases c with _ | c
    · exact .inl rfl
    · exact ih hk c
  | _ => cases hk

end FieldKind

namespace Declaration

variable {d : Declaration} {e : Entity} {field : String}

/-- The field is declared with texts. -/
def HasText (d : Declaration) (field : String) : Prop :=
  ∃ k, d.fields.lookup field = some k ∧ k.IsText

lemma Fits.read_text (he : d.Fits e.scalars) (hf : d.HasText field) :
    ∃ v, d.type.read? e field = some v ∧ (v = .null ∨ ∃ s, v = .text s) := by
  obtain ⟨k, hk, htext⟩ := hf
  obtain ⟨v, hv, hshow⟩ := he.shows field k hk
  exact ⟨v, hv, htext.eq_null_or_text hshow⟩

end Declaration

lemma Value.equals_text {v v' : Value} (h : v = .null ∨ ∃ s, v = .text s)
    (h' : v' = .null ∨ ∃ s, v' = .text s) : ∃ b, v.equals v' = .ok b := by
  rcases h with rfl | ⟨s, rfl⟩ <;> rcases h' with rfl | ⟨s', rfl⟩ <;> exact ⟨_, rfl⟩

lemma Value.equals_integer (a b : Option Int64) :
    ∃ x, (ofInteger? a).equals (ofInteger? b) = .ok x := by
  cases a <;> cases b <;> exact ⟨_, rfl⟩

namespace Relation

variable (r : Relation)

/-- The child belongs to the parent: what its field shows equals what the parent's does, as
predicates have it. -/
def joins (parent child : Entity) : Bool :=
  match r.parent.read? parent r.join.parentField, r.child.read? child r.join.childField with
  | some v, some v' => (v'.equals v).toOption = some true
  | _, _ => false

/-- The join is between two integer fields or two text fields. -/
def Comparable (Γ : Declarations) : Prop :=
  (Γ.of r.parent.name).HasInteger r.join.parentField ∧
      (Γ.of r.child.name).HasInteger r.join.childField ∨
    (Γ.of r.parent.name).HasText r.join.parentField ∧
      (Γ.of r.child.name).HasText r.join.childField

variable {r} {Γ : Declarations} {parent child : Entity}

/-- Comparable fields can be read, and are equal or not. -/
lemma Comparable.reads (hr : r.Declared Γ) (hc : r.Comparable Γ)
    (hp : (Γ.of r.parent.name).Fits parent.scalars) :
    ∃ v, r.parent.read? parent r.join.parentField = some v ∧
      ∀ child : Entity, (Γ.of r.child.name).Fits child.scalars →
        ∃ v' b, r.child.read? child r.join.childField = some v' ∧ v'.equals v = .ok b := by
  rw [hr.parent, hr.child]
  rcases hc with ⟨hi, hi'⟩ | ⟨ht, ht'⟩
  · refine ⟨_, hp.lookup_integer hi, fun child hch => ?_⟩
    rw [Declarations.name_type] at hch
    obtain ⟨b, hb⟩ := Value.equals_integer (child.scalars.integer? r.join.childField)
      (parent.scalars.integer? r.join.parentField)
    exact ⟨_, b, hch.lookup_integer hi', hb⟩
  · obtain ⟨v, hv, htext⟩ := hp.read_text ht
    refine ⟨v, hv, fun child hch => ?_⟩
    rw [Declarations.name_type] at hch
    obtain ⟨v', hv', htext'⟩ := hch.read_text ht'
    obtain ⟨b, hb⟩ := Value.equals_text htext' htext
    exact ⟨v', b, hv', hb⟩

/-- A search for the children of a parent selects the rows that belong to it. -/
lemma Comparable.select (hr : r.Declared Γ) (hc : r.Comparable Γ) {rows : List Entity}
    (hp : (Γ.of r.parent.name).Fits parent.scalars)
    (hrows : ∀ row ∈ rows, (Γ.of r.child.name).Fits row.scalars) :
    ∃ v, r.parent.read parent r.join.parentField = .ok v ∧
      Table.select r.child (r.join.predicate v) rows = .ok (rows.filter (r.joins parent)) := by
  obtain ⟨v, hv, hchild⟩ := hc.reads hr hp
  refine ⟨v, by rw [EntityType.read, hv], ?_⟩
  have hsat : ∀ row ∈ rows,
      (r.join.predicate v).satisfied r.child row = .ok (r.joins parent row) := by
    intro row hrow
    obtain ⟨v', b, hv', hb⟩ := hchild row (hrows row hrow)
    have hread : r.child.read row r.join.childField = .ok v' := by rw [EntityType.read, hv']
    simp only [Join.predicate, Expr.satisfied, Expr.eval, bind, Except.bind, hread, Value.binary,
      hb, joins, hv, hv']
    cases b <;> rfl
  rcases Table.select_cases r.child (r.join.predicate v) rows with
    ⟨-, h⟩ | ⟨err, -, row, hrow, herr⟩
  · rw [h]
    refine congrArg _ (List.filter_congr fun row hrow => ?_)
    simp [Expr.holds, hsat row hrow, Except.toOption]
  · rw [hsat row hrow] at herr
    cases herr

end Relation

/-! ### Rows -/

namespace UnitOfWork

/-- All entities are kept in tables in memory, one for each type, and every navigation is mapped at
most once, to a registered type and by a join of comparable fields. -/
structure Searchable (Γ : Declarations) (u : UnitOfWork) : Prop where
  declared : u.Declared Γ
  names : (u.stores.map (·.type.name)).Nodup
  tables : (u.stores.map DataStore.table).Nodup
  memory : ∀ s ∈ u.stores, ∃ t, s.adapter.storage = .memory t
  children : ∀ r ∈ u.relations, (u.store? r.child.name).isSome
  once : u.MapsOnce
  comparable : ∀ r ∈ u.relations, r.Comparable Γ

/-- The rows of every table are entities of the type whose table it is. -/
def Typed (Γ : Declarations) (u : UnitOfWork) (w : World) : Prop :=
  ∀ s ∈ u.stores, ∀ row ∈ w.rows s.table, Γ.Has s.type.name row

/-- The rows that belong to a parent under a relation, in the order of their table. -/
def childRows (u : UnitOfWork) (w : World) (r : Relation) (parent : Entity) : List Entity :=
  match u.store? r.child.name with
  | some s => (w.rows s.table).filter (r.joins parent)
  | none => []

/-- Under some relation a row of the one type has a row of the other that belongs to it. -/
def Owns (u : UnitOfWork) (w : World) (x y : String × Entity) : Prop :=
  ∃ r ∈ u.relations, r.parent.name = x.1 ∧ r.child.name = y.1 ∧ y.2 ∈ u.childRows w r x.2

/-- From a row one comes to rows that belong to themselves, perhaps by way of others. -/
def Circles (u : UnitOfWork) (w : World) (x : String × Entity) : Prop :=
  ∃ y, Relation.ReflTransGen (u.Owns w) x y ∧ Relation.TransGen (u.Owns w) y y

/-- From a row one can go down so many steps. -/
def Descends (u : UnitOfWork) (w : World) (n : Nat) (x : String × Entity) : Prop :=
  ∃ l : List (String × Entity), l.length = n ∧ (x :: l).IsChain (u.Owns w)

variable {u : UnitOfWork} {Γ : Declarations} {w : World} {r : Relation} {n : Nat}
  {x y : String × Entity}

lemma Descends.zero (x : String × Entity) : u.Descends w 0 x := ⟨[], rfl, .singleton x⟩

lemma Descends.succ (h : u.Owns w x y) (hy : u.Descends w n y) : u.Descends w (n + 1) x := by
  obtain ⟨l, hlen, hl⟩ := hy
  exact ⟨y :: l, by rw [List.length_cons, hlen], .cons_cons h hl⟩

lemma childRows_congr {parent parent' : Entity} (h : parent'.scalars = parent.scalars) :
    u.childRows w r parent' = u.childRows w r parent := by
  have hjoins : r.joins parent' = r.joins parent := by
    funext child
    simp only [Relation.joins, EntityType.read?, h]
  rw [childRows, childRows, hjoins]

namespace Searchable

lemma has_childRows (hw : u.Typed Γ w) {parent child : Entity}
    (hc : child ∈ u.childRows w r parent) : Γ.Has r.child.name child := by
  unfold childRows at hc
  rcases hs : u.store? r.child.name with _ | s
  · rw [hs] at hc; cases hc
  · rw [hs] at hc
    obtain ⟨hmem, hname⟩ := store?_eq_some hs
    exact hname ▸ hw s hmem child (List.mem_of_mem_filter hc)

/-- The children of a parent are found as the rows that belong to it. -/
lemma childrenOf_ok (hu : u.Searchable Γ) (hw : u.Typed Γ w) (hr : r ∈ u.relations)
    {parent : Entity} (hp : (Γ.of r.parent.name).Fits parent.scalars) :
    u.childrenOf r parent w = (.ok (u.childRows w r parent), w) := by
  have hd := hu.declared.relations r hr
  obtain ⟨s, hs⟩ := Option.isSome_iff_exists.mp (hu.children r hr)
  obtain ⟨hmem, hname⟩ := store?_eq_some hs
  obtain ⟨t, ht⟩ := hu.memory s hmem
  have htype : s.type = r.child := (hu.declared.adapter hs).2.trans hd.child.symm
  have hrows : ∀ row ∈ w.rows s.table, (Γ.of r.child.name).Fits row.scalars := by
    intro row hrow
    rw [← hname]
    exact (hw s hmem row hrow).scalars
  obtain ⟨v, hv, hselect⟩ := (hu.comparable r hr).select hd hp hrows
  have hfind : s.find (r.join.predicate v) w =
      (.ok ((w.rows s.table).filter (r.joins parent)), w) := by
    rw [DataStore.find_memory ht, htype, hselect]
  have hstore : u.store r.child = .ok s := by rw [store, hs]
  rw [childrenOf, Search.ofStep, adapt_apply, hv, hstore, bind_of_ok (ofExcept_apply _ w),
    bind_of_ok (ofExcept_apply _ w), hfind, childRows, hs]
  rfl

end Searchable

/-! ### Ways down -/

/-- A row that belongs to another stands in a table. -/
lemma Owns.stored (h : u.Owns w x y) : ∃ s, u.store? y.1 = some s ∧ y.2 ∈ w.rows s.table := by
  obtain ⟨r, -, -, hname, hy⟩ := h
  unfold childRows at hy
  rcases hs : u.store? r.child.name with _ | s
  · rw [hs] at hy; cases hy
  · rw [hs] at hy
    exact ⟨s, hname ▸ hs, List.mem_of_mem_filter hy⟩

/-- The rows of all tables, each with the name of its table. -/
def shelf (w : World) : List (String × Entity) := w.tables.flatMap fun p => p.2.map (p.1, ·)

lemma mem_shelf {table : String} {row : Entity} (h : row ∈ w.rows table) :
    (table, row) ∈ shelf w := by
  unfold World.rows Keyed.get? at h
  rcases hl : w.tables.lookup table with _ | rows
  · rw [hl] at h; cases h
  · rw [hl] at h
    exact List.mem_flatMap.mpr ⟨_, mem_of_lookup _ _ hl, List.mem_map_of_mem h⟩

lemma length_shelf (w : World) : (shelf w).length = w.size := by
  simp [shelf, World.size, List.length_flatMap]

/-- A row of a registered type with the name of its table. -/
def place (u : UnitOfWork) (x : String × Entity) : String × Entity :=
  (((u.store? x.1).map DataStore.table).getD "", x.2)

lemma place_eq {s : DataStore} (h : u.store? x.1 = some s) : u.place x = (s.table, x.2) := by
  rw [place, h]
  rfl

/-- The table tells the type, so rows of different types stand in different places. -/
lemma Searchable.eq_of_place (hu : u.Searchable Γ) {s s' : DataStore} (hx : u.store? x.1 = some s)
    (hy : u.store? y.1 = some s') (h : u.place x = u.place y) : x = y := by
  rw [place_eq hx, place_eq hy, Prod.mk.injEq] at h
  obtain ⟨hmem, hname⟩ := store?_eq_some hx
  obtain ⟨hmem', hname'⟩ := store?_eq_some hy
  obtain rfl := List.inj_on_of_nodup_map hu.tables hmem hmem' h.1
  exact Prod.ext (hname.symm.trans hname') h.2

/-- Where no circle is reached, a way down is no longer than there are rows. -/
lemma Searchable.descends_le (hu : u.Searchable Γ) (hx : ¬u.Circles w x) (h : u.Descends w n x) :
    n ≤ w.size := by
  obtain ⟨l, rfl, hl⟩ := h
  have hpairs : (x :: l).Pairwise (Relation.TransGen (u.Owns w)) :=
    List.isChain_iff_pairwise.mp (hl.imp fun _ _ => .single)
  obtain ⟨hreach, hpairs⟩ := List.pairwise_cons.mp hpairs
  have hnodup : l.Nodup := by
    refine hpairs.imp_of_mem fun hy _ hyz => ?_
    rintro rfl
    exact hx ⟨_, (hreach _ hy).to_reflTransGen, hyz⟩
  have hstored : ∀ y ∈ l, ∃ s, u.store? y.1 = some s ∧ y.2 ∈ w.rows s.table := by
    intro y hy
    obtain ⟨z, -, hz⟩ := Relation.TransGen.tail'_iff.mp (hreach y hy)
    exact hz.stored
  have hplaces : (l.map u.place).Nodup := by
    refine hnodup.map_on fun y hy z hz hyz => ?_
    obtain ⟨s, hs, -⟩ := hstored y hy
    obtain ⟨s', hs', -⟩ := hstored z hz
    exact hu.eq_of_place hs hs' hyz
  have hsub : l.map u.place ⊆ shelf w := by
    intro q hq
    obtain ⟨y, hy, rfl⟩ := List.mem_map.mp hq
    obtain ⟨s, hs, hrow⟩ := hstored y hy
    rw [place_eq hs]
    exact mem_shelf hrow
  have hlen := hplaces.length_le_of_subset hsub
  rwa [List.length_map, length_shelf] at hlen

end UnitOfWork

end EntityStore
