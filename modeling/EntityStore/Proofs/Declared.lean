import EntityStore.Proofs.Participation
import EntityStore.Proofs.Triple
import EntityStore.Proofs.Typing

/-!
Units of work over declared types. Stores are registered with adapters of declared types, relations
go along declared navigations, and what is buffered is well-typed. The operations that build a unit
of work keep it so.
-/

namespace EntityStore

variable {Γ : Declarations}

/-- The adapter keeps the entities of a declared type in a layout of that type. -/
structure Adapter.Declared (Γ : Declarations) (a : Adapter) : Prop where
  type : a.type = Γ.type a.type.name
  schema : a.schema.IsOf a.type

/-- The adapter is one of those made for declared types, in memory or on a connection, with or
without a guard in front. -/
inductive Adapter.MadeOver (Γ : Declarations) : Adapter → Prop
  | inMemory {name table : String} {key : Option String} {generated : Option Bool}
    {backend : Option String} {a : Adapter}
    (h : Adapter.inMemory (Γ.type name) table key generated backend = .ok a) : MadeOver Γ a
  | onConnection {name connection : String} {d : Sql.Dialect} {table key : Option String}
    {generated : Option Bool} {a : Adapter}
    (h : Adapter.onConnection (Γ.type name) connection d table key generated = .ok a) : MadeOver Γ a
  | guarded {a : Adapter} (h : MadeOver Γ a) (g : Guard) : MadeOver Γ { a with guard := some g }

lemma Adapter.MadeOver.declared {a : Adapter} (h : a.MadeOver Γ) : a.Declared Γ := by
  induction h with
  | inMemory h =>
    obtain ⟨s, hs, h⟩ := except_bind_eq_ok.mp h
    cases h
    exact ⟨by simp, ⟨_, _, hs⟩⟩
  | onConnection h =>
    obtain ⟨s, hs, h⟩ := except_bind_eq_ok.mp h
    cases h
    exact ⟨by simp, ⟨_, _, hs⟩⟩
  | guarded _ g ih => exact ⟨ih.type, ih.schema⟩

/-- The buffered entities of a store are of its type. -/
structure DataStore.Declared (Γ : Declarations) (s : DataStore) : Prop where
  adapter : s.adapter.Declared Γ
  pending : ∀ p ∈ s.pending, Γ.Has s.type.name p.entity

lemma DataStore.Declared.buffer {s : DataStore} (hs : s.Declared Γ) {op : Operation} {e : Entity}
    (he : Γ.Has s.type.name e) : (s.buffer op e).Declared Γ := by
  refine ⟨hs.adapter, fun p hp => ?_⟩
  rcases List.mem_append.mp hp with hp | hp
  · exact hs.pending p hp
  · obtain rfl : p = ⟨op, e⟩ := by simpa using hp
    exact he

/-- The relation goes along a declared navigation. -/
structure Relation.Declared (Γ : Declarations) (r : Relation) : Prop where
  parent : r.parent = Γ.type r.parent.name
  child : r.child = Γ.type r.child.name
  navigation : ⟨r.navigation, r.child.name⟩ ∈ (Γ.of r.parent.name).navigations

namespace UnitOfWork

/-- All that the unit of work holds is declared. -/
structure Declared (Γ : Declarations) (u : UnitOfWork) : Prop where
  stores : ∀ s ∈ u.stores, s.Declared Γ
  relations : ∀ r ∈ u.relations, r.Declared Γ

variable {u u' : UnitOfWork}

lemma Declared.register (hu : u.Declared Γ) {s : DataStore} (hs : s.Declared Γ) :
    (u.register s).Declared Γ := by
  refine ⟨fun t ht => ?_, hu.relations⟩
  unfold UnitOfWork.register at ht
  dsimp only at ht
  split at ht
  · obtain ⟨t', ht', rfl⟩ := List.mem_map.mp ht
    split
    · exact hs
    · exact hu.stores t' ht'
  · rcases List.mem_append.mp ht with ht | ht
    · exact hu.stores t ht
    · obtain rfl : t = s := by simpa using ht
      exact hs

lemma Declared.relate (hu : u.Declared Γ) {r : Relation} (hr : r.Declared Γ)
    (h : u.relate r = .ok u') : u'.Declared Γ := by
  unfold UnitOfWork.relate at h
  split at h
  · cases h
  · split at h
    · cases h
    · cases h
      refine ⟨hu.stores, fun q hq => ?_⟩
      rcases List.mem_append.mp hq with hq | hq
      · exact hu.relations q hq
      · obtain rfl : q = r := by simpa using hq
        exact hr

lemma Declared.buffer (hu : u.Declared Γ) {op : Operation} {T : EntityType} {e : Entity}
    (he : Γ.Has T.name e) (h : u.buffer op T e = .ok u') : u'.Declared Γ := by
  obtain ⟨_, -, h⟩ := except_bind_eq_ok.mp h
  cases h
  refine ⟨fun s hs => ?_, hu.relations⟩
  obtain ⟨t, ht, rfl⟩ := List.mem_map.mp hs
  split
  · rename_i hname
    exact (hu.stores t ht).buffer (hname ▸ he)
  · exact hu.stores t ht

lemma Declared.clear (hu : u.Declared Γ) : u.clear.Declared Γ := by
  refine ⟨fun s hs => ?_, hu.relations⟩
  obtain ⟨t, ht, rfl⟩ := List.mem_map.mp hs
  exact ⟨(hu.stores t ht).adapter, by simp [DataStore.clear]⟩

/-- The unit of work is what its operations make of adapters, relations and entities of declared
types. -/
inductive BuiltOver (Γ : Declarations) : UnitOfWork → Prop
  | empty : BuiltOver Γ {}
  | register {u : UnitOfWork} {a : Adapter} (h : BuiltOver Γ u) (ha : a.MadeOver Γ) :
    BuiltOver Γ (u.register ⟨a, []⟩)
  | relate {u u' : UnitOfWork} {r : Relation} (h : BuiltOver Γ u) (hr : r.Declared Γ)
    (hu : u.relate r = .ok u') : BuiltOver Γ u'
  | map {u u' : UnitOfWork} {r : Relation} (h : BuiltOver Γ u) (hr : r.Declared Γ)
    (hu : u.map r = .ok u') : BuiltOver Γ u'
  | buffer {u u' : UnitOfWork} {op : Operation} {T : EntityType} {e : Entity} (h : BuiltOver Γ u)
    (he : Γ.Has T.name e) (hu : u.buffer op T e = .ok u') : BuiltOver Γ u'
  | clear {u : UnitOfWork} (h : BuiltOver Γ u) : BuiltOver Γ u.clear

/-- **Declared by construction.** Whatever the operations make of declared parts is declared. -/
theorem BuiltOver.declared (h : u.BuiltOver Γ) : u.Declared Γ := by
  induction h with
  | empty => exact ⟨by simp, by simp⟩
  | register _ ha ih => exact ih.register ⟨ha.declared, by simp⟩
  | relate _ hr hu ih => exact ih.relate hr hu
  | map _ hr hu ih =>
    unfold UnitOfWork.map at hu
    split at hu
    · exact ih.relate hr hu
    · cases hu
  | buffer _ he hu ih => exact ih.buffer he hu
  | clear _ ih => exact ih.clear

/-- A type is stored through an adapter of the declared type of its name. -/
lemma Declared.adapter (hu : u.Declared Γ) {name : String} {s : DataStore}
    (h : u.store? name = some s) : s.adapter.Declared Γ ∧ s.adapter.type = Γ.type name := by
  obtain ⟨hs, rfl⟩ := store?_eq_some h
  have ha := (hu.stores s hs).adapter
  exact ⟨ha, ha.type⟩

variable {T : EntityType} {e c : Entity} {r : Relation}

lemma mem_relationsOf : r ∈ u.relationsOf T ↔ r ∈ u.relations ∧ r.parent.name = T.name := by
  simp [relationsOf]

/-- A relation of a type goes along one of its navigations. -/
lemma Declared.navigation (hu : u.Declared Γ) (hr : r ∈ u.relationsOf T) :
    ⟨r.navigation, r.child.name⟩ ∈ (Γ.of T.name).navigations := by
  obtain ⟨hr, hname⟩ := mem_relationsOf.mp hr
  exact hname ▸ (hu.relations r hr).navigation

lemma Declared.has_child (hu : u.Declared Γ) (he : Γ.Has T.name e) (hr : r ∈ u.relationsOf T)
    (hc : c ∈ e.collection r.navigation) : Γ.Has r.child.name c :=
  he.children _ (hu.navigation hr) c hc

lemma Declared.mem_names (hu : u.Declared Γ) (he : Γ.Has T.name e) (hr : r ∈ u.relationsOf T) :
    r.navigation ∈ e.children.map Prod.fst := by
  rw [he.names]
  exact List.mem_map_of_mem (f := Navigation.name) (hu.navigation hr)

end UnitOfWork

/-! ### People and their identifications -/

namespace Census

def person : Declaration where
  name := "Person"
  fields := [("personId", .int64), ("firstname", .text)]
  navigations := [⟨"identifications", "Identification"⟩]

def identification : Declaration where
  name := "Identification"
  fields := [("identificationId", .int64), ("personId", .int32), ("number", .text)]

def types : Declarations := .ofList [person, identification]

/-- A person has the identifications that bear the key of the person. -/
def identifications : Relation :=
  ⟨person.type, "identifications", identification.type, ⟨"personId", "personId"⟩⟩

lemma identifications_declared : identifications.Declared types where
  parent := rfl
  child := rfl
  navigation := List.mem_singleton.mpr rfl

/-- An adapter of a table that belongs to the journal of the census. The key is the first field. -/
def adapter (d : Declaration) (table key : String) (others : List Descriptor) : Adapter where
  type := d.type
  schema := ⟨d.name, ⟨key, some ⟨.integer, false⟩, .key true⟩ :: others, key, true⟩
  storage := .memory ⟨table, some "census"⟩

def people : Adapter :=
  adapter person "people" "personId" [⟨"firstname", some ⟨.text, false⟩, .scalar⟩,
    ⟨"identifications", none, .navigation⟩]

def numbers : Adapter :=
  adapter identification "numbers" "identificationId"
    [⟨"personId", some ⟨.integer, false⟩, .scalar⟩, ⟨"number", some ⟨.text, false⟩, .scalar⟩]

lemma people_declared : people.Declared types := ⟨rfl, some "personId", none, rfl⟩

lemma numbers_declared : numbers.Declared types := ⟨rfl, some "identificationId", none, rfl⟩

/-- The adapter with its table in a database behind a connection. -/
def behind (a : Adapter) (connection : String) (d : Sql.Dialect) : Adapter :=
  { a with storage := .sql ⟨connection, a.type.name, d, .of a.type.name a.schema d⟩ }

/-- A person, as yet without a key, with an identification. -/
def eduard : Entity where
  scalars := [("personId", .int 0), ("firstname", .text "Eduard")]
  children := [("identifications", [
    ⟨[("identificationId", .int 0), ("personId", .int 0), ("number", .text "123-456")], []⟩])]

lemma eduard_has : types.Has "Person" eduard := by
  have hperson : types.of "Person" = person := rfl
  have hid : types.of "Identification" = identification := rfl
  refine ⟨?_, rfl, ?_⟩
  · rw [hperson]
    exact Declaration.fits_of_forall₂
      (.cons ⟨rfl, (0 : Int64), rfl⟩ (.cons ⟨rfl, "Eduard", rfl⟩ .nil))
  · intro n hn c hc
    rw [hperson] at hn
    obtain rfl : n = ⟨"identifications", "Identification"⟩ := by simpa [person] using hn
    have hc' : c ∈ eduard.collection "identifications" := hc
    obtain rfl := List.mem_singleton.mp hc'
    refine ⟨?_, rfl, by simp [hid, identification]⟩
    rw [hid]
    exact Declaration.fits_of_forall₂ (.cons ⟨rfl, (0 : Int64), rfl⟩
      (.cons ⟨rfl, (0 : Int32), rfl⟩ (.cons ⟨rfl, "123-456", rfl⟩ .nil)))

/-- The unit of work in which a person is buffered to be inserted. -/
def registry : UnitOfWork where
  stores := [⟨people, [⟨.insert, eduard⟩]⟩, ⟨numbers, []⟩]
  relations := [identifications]

lemma registry_declared : registry.Declared types where
  stores s hs := by
    rcases List.mem_pair.mp hs with rfl | rfl
    · refine ⟨people_declared, fun p hp => ?_⟩
      obtain rfl := List.mem_singleton.mp hp
      exact eduard_has
    · exact ⟨numbers_declared, by simp⟩
  relations r hr := by
    obtain rfl := List.mem_singleton.mp hr
    exact identifications_declared

end Census

end EntityStore
