import EntityStore.Entity.Schema
import EntityStore.Sql.Fragment

/-!
The statements that store, change, remove and fetch the entities of one table. Fields stand for
their columns, and a field's parameter bears its name.
-/

namespace EntityStore.Sql

/-- A statement on one table. -/
inductive Statement where
  | select (table : String) (columns : List String)
  /-- Insert the fields; `identity` is a query to run with it. -/
  | insert (table : String) (columns : List String) (identity : Option String)
  /-- Set the fields where the key is that of the entity. -/
  | update (table : String) (columns : List String) (key : String)
  | delete (table : String) (key : String)
deriving DecidableEq, Repr

namespace Statement

def list (items : List String) : String := ", ".intercalate items

/-- The equation of a column with the parameter of its name. -/
def equation (d : Dialect) (name : String) : String := d.quote name ++ " = " ++ d.parameter name

def text (d : Dialect) : Statement → String
  | select table columns => "SELECT " ++ list (columns.map d.quote) ++ " FROM " ++ d.quote table
  | insert table columns identity =>
    "INSERT INTO " ++ d.quote table ++ " (" ++ list (columns.map d.quote) ++ ") VALUES (" ++
      list (columns.map d.parameter) ++ ")" ++
      match identity with
      | some query => "; " ++ query ++ ";"
      | none => ""
  | update table columns key =>
    "UPDATE " ++ d.quote table ++ " SET " ++ list (columns.map (equation d)) ++ " WHERE " ++
      equation d key
  | delete table key =>
    (if d.deleteFrom then "DELETE FROM " else "DELETE ") ++ d.quote table ++ " WHERE " ++
      equation d key

end Statement

/-- The statements for one table. There is no update where nothing but the key is stored. -/
structure Statements where
  select : Statement
  insert : Statement
  update : Option Statement
  delete : Statement
deriving DecidableEq, Repr

/-- The statements for a table that holds entities of the given layout. -/
def Statements.of (table : String) (s : Schema) (d : Dialect) : Statements where
  select := .select table s.persisted
  insert := .insert table s.insertable
    (if s.generated && d.identityBatched then some d.identity else none)
  update :=
    if s.persistedWithoutKey.isEmpty then none
    else some (.update table s.persistedWithoutKey s.key)
  delete := .delete table s.key

def Statements.selectWhere (st : Statements) (d : Dialect) (f : Fragment) : String :=
  st.select.text d ++ " WHERE " ++ f.text

end EntityStore.Sql
