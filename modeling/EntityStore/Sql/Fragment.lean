import EntityStore.Sql.Dialect
import EntityStore.Text.Substitute

/-!
A piece of a statement with the parameters its placeholders stand for, and the same piece with the
values written in, for people to read.
-/

namespace EntityStore.Sql

/-- A parameter by its position and its placeholder. -/
structure Parameter where
  id : Nat
  name : String
  value : Value

/-- Text with placeholders, and their parameters in order. -/
structure Fragment where
  text : String
  params : List Parameter

namespace Fragment

/-- Longer placeholders go first, so that none is found inside another; then the later ones. -/
def goesBefore (p q : Parameter) : Bool :=
  q.name.utf8ByteSize < p.name.utf8ByteSize ||
    p.name.utf8ByteSize == q.name.utf8ByteSize && q.id ≤ p.id

/-- Write the literal of a parameter over each place where its name stands. -/
def inline (text : List Char) (p : Parameter) : List Char :=
  Text.substitute p.name.toList p.value.literal.toList text

/-- The text with literals for placeholders. Each parameter is written into what the ones before it
left. -/
def raw (f : Fragment) : String :=
  String.ofList ((f.params.mergeSort goesBefore).foldl inline f.text.toList)

end Fragment

end EntityStore.Sql
