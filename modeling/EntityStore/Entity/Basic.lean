import EntityStore.Field

/-!
Entities and their types. An entity has scalars, which are stored, and navigation collections of
further entities, which are not; a type says which there are and how a scalar is read and assigned.
-/

namespace EntityStore

/-- Scalars by name, in declaration order. -/
abbrev Record := List (String × Value)

/-- Put a value in the place of the one under the same name. -/
def Record.put (r : Record) (name : String) (v : Value) : Record :=
  r.map fun p => if p.1 = name then (p.1, v) else p

/-- A tree of entities: scalars, and under each navigation the collection of its children. -/
structure Entity where
  scalars : Record
  children : List (String × List Entity)
deriving Inhabited

namespace Entity

def collection (e : Entity) (navigation : String) : List Entity :=
  (e.children.lookup navigation).getD []

def withCollection (e : Entity) (navigation : String) (es : List Entity) : Entity :=
  { e with children := e.children.map fun p => if p.1 = navigation then (p.1, es) else p }

mutual

/-- Levels of children below an entity. -/
def height : Entity → Nat
  | ⟨_, children⟩ => heightOfAll children

/-- Levels that the collections add below their owner. -/
def heightOfAll : List (String × List Entity) → Nat
  | [] => 0
  | (_, es) :: rest => max (heightOfCollection es) (heightOfAll rest)

/-- Levels of a collection, its own included; none if it is empty. -/
def heightOfCollection : List Entity → Nat
  | [] => 0
  | e :: es => max (height e + 1) (heightOfCollection es)

end

end Entity

/-- A declared scalar. -/
structure Field where
  name : String
  type : FieldType

/-- A declared collection of entities of the named type. -/
structure Navigation where
  name : String
  target : String

/-- A type of entity. Its accessors see the scalars alone: `get` may leave a declared field out and
`set` may refuse what `get` shows. -/
structure EntityType where
  name : String
  fields : List Field
  navigations : List Navigation
  blank : Record
  get : Record → String → Option Value
  set : Record → String → Value → Except Error Record

namespace EntityType

variable (T : EntityType)

/-- The entity before anything is assigned. -/
def fresh : Entity := ⟨T.blank, T.navigations.map fun n => (n.name, [])⟩

/-- The value of a field, if the type shows it. -/
def read? (e : Entity) (field : String) : Option Value := T.get e.scalars field

def read (e : Entity) (field : String) : Except Error Value :=
  match T.read? e field with
  | some v => .ok v
  | none => .error (.unknownField T.name field)

def assign (e : Entity) (field : String) (v : Value) : Except Error Entity :=
  (T.set e.scalars field v).map fun r => { e with scalars := r }

def field? (name : String) : Option Field := T.fields.find? (·.name = name)

/-- Whether a field of the name is declared. -/
def declares (name : String) : Bool := T.fields.any (·.name = name)

end EntityType

/-- The declaration of an ordinary type, all of whose fields can be read and assigned. -/
structure Declaration where
  name : String
  fields : List (String × FieldKind)
  navigations : List Navigation := []
  distinct : (fields.map Prod.fst ++ navigations.map Navigation.name).Nodup := by decide

namespace Declaration

variable (d : Declaration)

/-- Assign a declared field what its kind makes of the value. -/
def put (r : Record) (field : String) (v : Value) : Except Error Record :=
  match d.fields.lookup field with
  | some k => (k.stored field v).map (Record.put r field)
  | none => .error (.unknownField d.name field)

def type : EntityType where
  name := d.name
  fields := d.fields.map fun p => ⟨p.1, p.2.type⟩
  navigations := d.navigations
  blank := d.fields.map fun p => (p.1, p.2.toValue p.2.initial)
  get r field := r.lookup field
  set := d.put

end Declaration

/-- Scalars taken out of an entity, to be named in a predicate. -/
structure Captured where
  typeName : String
  members : Record

/-- Take what an entity shows of its declared fields. -/
def EntityType.capture (T : EntityType) (e : Entity) : Captured :=
  ⟨T.name, T.fields.filterMap fun f => (T.read? e f.name).map (f.name, ·)⟩

def Captured.member? (c : Captured) (name : String) : Option Value := c.members.lookup name

end EntityStore
