import EntityStore.Text.Blank
import EntityStore.Value.Basic

/-!
Rows that a database returns.
-/

namespace EntityStore.Sql

/-- Values by column, in the order of the columns. -/
abbrev Row := List (String × Value)

/-- The value of the first column of the name, letters A to Z being alike in both cases. -/
def Row.get? (row : Row) (name : String) : Option Value :=
  (row.find? fun p => Text.asciiLower p.1 = Text.asciiLower name).map Prod.snd

end EntityStore.Sql
