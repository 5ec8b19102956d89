import EntityStore.Entity.Basic
import EntityStore.Text.Lowercase

/-!
The layout a store keeps of an entity type: its fields with their roles, the key among them, and
whether the store assigns the key. Without an explicit key the field named `id`, or after the
entity and `id`, is taken; case and underscores do not count.
-/

namespace EntityStore

/-- The part a field plays in storage. -/
inductive Role where
  | key (generated : Bool)
  | scalar
  | navigation
deriving DecidableEq, Repr

/-- A field or navigation with its role; navigations have no type. -/
structure Descriptor where
  name : String
  type : Option FieldType
  role : Role

/-- The layout of one entity type. -/
structure Schema where
  entity : String
  descriptors : List Descriptor
  key : String
  generated : Bool

namespace Schema

/-- A name without underscores, in lower case. -/
def normalize (name : String) : List Char :=
  (name.toList.filter (· ≠ '_')).flatMap Text.lowercase

/-- The layout with the given key. Unless it is said, an integer key is generated. -/
def withKey (T : EntityType) (key : String) (generated : Option Bool) : Except Error Schema :=
  match T.field? key with
  | none => .error (.invalidKeyProperty T.name key)
  | some f =>
    let generated := generated.getD f.type.scalar.isIntegerLike
    let fields := T.fields.map fun g =>
      { name := g.name, type := some g.type,
        role := if g.name = key then .key generated else .scalar : Descriptor }
    let navigations := T.navigations.map fun n =>
      { name := n.name, type := none, role := .navigation : Descriptor }
    .ok ⟨T.name, fields ++ navigations, key, generated⟩

/-- Whether the name of a field makes it the key by convention. -/
def isKeyName (T : EntityType) (name : String) : Bool :=
  normalize name = ['i', 'd'] || normalize name = normalize T.name ++ ['i', 'd']

/-- The key by convention: the first field so named. -/
def conventionalKey (T : EntityType) : Except Error String :=
  match T.fields.find? fun f => isKeyName T f.name with
  | some f => .ok f.name
  | none => .error (.noKeyProperty T.name)

/-- The layout by convention. -/
def resolve (T : EntityType) : Except Error Schema := do
  withKey T (← conventionalKey T) none

/-- The layout with whatever is given, the rest by convention. -/
def of (T : EntityType) (key : Option String) (generated : Option Bool) : Except Error Schema := do
  let key ← match key with
    | some key => pure key
    | none => conventionalKey T
  withKey T key generated

variable (s : Schema)

/-- The stored fields in declaration order. -/
def persisted : List String := (s.descriptors.filter (·.role ≠ .navigation)).map (·.name)

/-- The stored fields without the key. -/
def persistedWithoutKey : List String := (s.descriptors.filter (·.role = .scalar)).map (·.name)

/-- Whether an insert gives the field a value: the store itself does so for a generated key. -/
def isInserted (d : Descriptor) : Bool :=
  match d.role with
  | .key _ => !s.generated
  | .scalar => true
  | .navigation => false

/-- The fields an insert gives values to. -/
def insertable : List String := (s.descriptors.filter s.isInserted).map (·.name)

def keyOf (T : EntityType) (e : Entity) : Except Error Value := T.read e s.key

/-- Whether a generated key is still to be assigned: hidden, null or zero. -/
def isTransient (T : EntityType) (e : Entity) : Bool :=
  s.generated && match T.read? e s.key with
    | none => true
    | some .null => true
    | some (.int i) => i == 0
    | some _ => false

def copyField (T : EntityType) (e copy : Entity) (field : String) : Except Error Entity := do
  T.assign copy field (← T.read e field)

/-- The stored fields of an entity in a fresh one, without children. -/
def snapshot (T : EntityType) (e : Entity) : Except Error Entity :=
  s.persisted.foldlM (copyField T e) T.fresh

end Schema

end EntityStore
