import EntityStore.UnitOfWork.Commit
import EntityStore.UnitOfWork.Hydrate

/-!
One-line descriptions of stores and sessions for diagnostics: the name of the thing and its parts in
braces, two points standing for parts left out.
-/

namespace EntityStore

/-- A name with parts in braces. -/
def describe (name : String) (parts : List (String × String)) (complete : Bool) : String :=
  name ++ " \x7b " ++ ", ".intercalate (parts.map fun p => p.1 ++ ": " ++ p.2) ++
    (if complete then " \x7d" else ", .. \x7d")

def describeOption : Option String → String
  | some s => "Some(" ++ s ++ ")"
  | none => "None"

/-- Texts in brackets. -/
def describeTexts (items : List String) : String :=
  "[" ++ ", ".intercalate (items.map Text.quoted) ++ "]"

/-- A journal, by the number of changes in it. -/
def describeJournal (name : String) (changes : Option (List Change)) : String :=
  describe "MemoryBackend"
    [("name", Text.quoted name),
      ("journaled", describeOption (changes.map fun cs => toString cs.length))] true

namespace Sql

def Statements.describe (s : Statements) (d : Dialect) : String :=
  EntityStore.describe "Statements"
    [("select", Text.quoted (s.select.text d)), ("insert", Text.quoted (s.insert.text d)),
      ("update", describeOption (s.update.map fun u => Text.quoted (u.text d))),
      ("delete", Text.quoted (s.delete.text d))] true

end Sql

/-- An adapter over a connection; one of a table in memory has no description. -/
def Adapter.describe? (a : Adapter) : Option String :=
  match a.storage with
  | .memory _ => none
  | .sql t =>
    some (describe "SqlAdapter"
      [("entity", Text.quoted a.type.name), ("table", Text.quoted t.name),
        ("backend", Text.quoted t.connection),
       ("statements", t.statements.describe t.dialect)] false)

/-- A data store, by the number of buffered writes. -/
def DataStore.describe (s : DataStore) : String :=
  EntityStore.describe "DataStore"
    [("entity", Text.quoted s.type.name), ("pending", toString s.pending.length)] false

/-- A unit of work, by its types and the numbers of relations and buffered writes. -/
def UnitOfWork.describe (u : UnitOfWork) : String :=
  EntityStore.describe "UnitOfWork"
    [("stores", describeTexts (u.stores.map (·.type.name))),
      ("relations", toString u.relations.length), ("pending", toString u.pending)] true

/-- A commit, by the number of writes. -/
def Committed.describe (c : Committed) : String :=
  EntityStore.describe "Committed" [("applied", toString c.applied)] false

end EntityStore
