import EntityStore.Value.Text

/-!
What differs between databases in the statements written for them.
-/

namespace EntityStore.Sql

/-- Quotes around names, the sign of a placeholder, and the shape of some statements. -/
structure Dialect where
  /-- Before a name. -/
  opening : Char
  /-- After a name. -/
  closing : Char
  /-- Before the name of a parameter. -/
  sign : Char
  /-- The query for the key that the last insert generated. -/
  identity : String
  /-- That query is part of the insert instead of following it. -/
  identityBatched : Bool
  /-- Deletes are written with the word `FROM`. -/
  deleteFrom : Bool
deriving DecidableEq, Repr

namespace Dialect

/-- Brackets and `@`; the identity comes with the insert. -/
def sqlServer : Dialect := ⟨'[', ']', '@', "SELECT CAST(SCOPE_IDENTITY() AS INT)", true, false⟩

/-- Brackets and `@`; the identity is asked for after the insert. -/
def sqlite : Dialect := ⟨'[', ']', '@', "SELECT last_insert_rowid()", false, true⟩

/-- The dialect where none is given. -/
def standard : Dialect := sqlServer

variable (d : Dialect)

def quote (name : String) : String := d.opening.toString ++ name ++ d.closing.toString

/-- The placeholder of a named parameter. -/
def parameter (name : String) : String := d.sign.toString ++ name

/-- The placeholder of a numbered parameter. -/
def numbered (id : Nat) : String := d.parameter (toString id)

end Dialect

/-- A placeholder with the value bound to it. -/
abbrev Binding := String × Value

/-- Bind values to placeholders numbered from zero. -/
def positional (d : Dialect) (values : List Value) : List Binding :=
  values.zipIdx.map fun p => (d.numbered p.2, p.1)

end EntityStore.Sql
