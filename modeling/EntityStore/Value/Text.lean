import EntityStore.Calendar.Written
import EntityStore.Decimal.Shortest
import EntityStore.Text.Quoted
import EntityStore.Value.Basic

/-!
The two texts of a value: the one shown in messages, and the literal that stands for it in a
statement written out for reading.
-/

namespace EntityStore.Value

/-- The text shown in messages. -/
def display : Value → String
  | null => "NULL"
  | bool b => if b then "true" else "false"
  | int i => toString i.toInt
  | float x => Decimal.ofFloat x
  | text s => Text.quoted s
  | dateTime t => t.text

/-- Between single quotes, a single quote inside written twice. -/
def quotedLiteral (s : List Char) : List Char :=
  '\'' :: s.flatMap (fun c => if c = '\'' then ['\'', '\''] else [c]) ++ ['\'']

def literal : Value → String
  | null => "NULL"
  | bool b => if b then "1" else "0"
  | int i => toString i.toInt
  | float x => Decimal.ofFloat x
  | text s => String.ofList (quotedLiteral s.toList)
  | dateTime t => String.ofList ('\'' :: t.writtenWith ' ' ++ ['\''])

end EntityStore.Value
