import EntityStore.Value.Text

/-!
What can go wrong, by cause, and the one place where causes are put into words.
-/

namespace EntityStore

/-- Where a commit was when it failed. -/
inductive Phase where
  | insert
  | update
  | delete
  | commit
deriving DecidableEq, Repr

def Phase.all : List Phase := [insert, update, delete, commit]

def Phase.name : Phase → String
  | insert => "insert"
  | update => "update"
  | delete => "delete"
  | commit => "commit"

/-- Why an expression is refused. Operators, nodes and operands appear by name. -/
inductive Refusal where
  /-- A navigation collection stands where a field is expected. -/
  | navigationQueried (navigation entity : String)
  /-- A constant that is no bool stands in a truth position. -/
  | constantNotTruth (kind : Kind)
  /-- A quoted column that is no bool stands in a truth position. -/
  | columnNotTruth (column : String)
  /-- A node that is neither constant nor member is the pattern of a match. -/
  | nodeNotPattern (node matching : String)
  /-- A value that is neither text nor null is the pattern of a match. -/
  | valueNotPattern (kind : Kind)
  /-- A value that is neither bool nor null was to be decided on. -/
  | valueNotTruth (kind : Kind)
  /-- A match met a value that is neither text nor null. -/
  | matchNeedsText (matching : String) (target pattern : Kind)
  | unaryUndefined (operator : String) (operand : Kind)
  | binaryUndefined (operator : String) (left right : Kind)
  | negationOverflow (operand : Int64)
  | divisionByZero (left operator right : String)
  | overflow (left operator right : String)
  /-- The stored keys are of a kind from which no next key follows. -/
  | keyNotGenerated (kind : Kind) (key entity : String)
  /-- A reason given in words. -/
  | other (reason : String)

namespace Refusal

def message : Refusal → String
  | navigationQueried n e => s!"navigation {n} of {e} cannot be queried"
  | constantNotTruth k => s!"{k.name} constant is not a truth value"
  | columnNotTruth c => s!"{c} is not a truth value"
  | nodeNotPattern n m => s!"{n} cannot be used as a {m} pattern"
  | valueNotPattern k => s!"{k.name} cannot be used as a pattern"
  | valueNotTruth k => s!"{k.name} value is not a truth value"
  | matchNeedsText m t p => s!"{m} needs text operands, got {t.name} and {p.name}"
  | unaryUndefined o k => s!"{o} is not defined for {k.name} values"
  | binaryUndefined o l r => s!"{o} is not defined for {l.name} and {r.name} values"
  | negationOverflow i => s!"overflow negating {i.toInt}"
  | divisionByZero l o r => s!"division by zero in {l} {o} {r}"
  | overflow l o r => s!"overflow in {l} {o} {r}"
  | keyNotGenerated k f e => s!"{k.name} key {f} of {e} cannot be generated"
  | other s => s

end Refusal

mutual

/-- Everything that an operation of the library can fail with. -/
inductive Error where
  | unsupportedExpression (why : Refusal)
  | unsupportedOperator (name : String)
  | noKeyProperty (entity : String)
  | invalidKeyProperty (entity field : String)
  | unknownField (entity field : String)
  | materialization (field : String) (value : Value)
  | unregisteredEntity (entity : String)
  | notFound (entity : String)
  | ambiguousResult (entity : String) (count : Nat)
  | backendExecution (report : Report)
  /-- A commit stopped after `applied` writes. -/
  | commit (applied : Nat) (rolledBack : Bool) (entity : String) (phase : Phase) (source : Error)

/-- What a backend says of a failure: the root of it, with the contexts it passed through. -/
inductive Report where
  | plain (text : String)
  | typed (error : Error)
  | context (text : String) (inner : Report)

end

mutual

def Error.message : Error → String
  | .unsupportedExpression why => s!"unsupported expression: {why.message}"
  | .unsupportedOperator name => s!"unsupported operator: {name}"
  | .noKeyProperty e => s!"no key property on entity {e}"
  | .invalidKeyProperty e f => s!"invalid key property {f} on entity {e}"
  | .unknownField e f => s!"unknown field {f} on entity {e}"
  | .materialization f v => s!"cannot materialize field {f} from value {v.display}"
  | .unregisteredEntity e => s!"no data store registered for entity {e}"
  | .notFound e => s!"no {e} matches the specification"
  | .ambiguousResult e n => s!"{n} {e} entities match the specification, expected one"
  | .backendExecution r => "backend execution failed: " ++ ": ".intercalate r.texts
  | .commit applied rolledBack e phase source =>
    let boundary := if rolledBack then "batch rolled back" else "earlier changes remain applied"
    s!"commit failed during {phase.name} of {e} after {applied} applied operation(s), " ++
      s!"{boundary}: " ++ source.message

/-- What lies behind an error, in words, from the nearest cause to the root. -/
def Error.causes : Error → List String
  | .backendExecution r => r.texts
  | .commit _ _ _ _ source => source.message :: source.causes
  | _ => []

/-- The contexts from the outermost on, the root, and what lies behind it. -/
def Report.texts : Report → List String
  | .plain s => [s]
  | .typed e => e.message :: e.causes
  | .context s inner => s :: inner.texts

end

def Report.message (r : Report) : String := ": ".intercalate r.texts

/-- An error that was only wrapped comes back as itself; any other report is the backend's. -/
def Report.toError (r : Report) : Error :=
  go r
where
  /-- Look for an error at the root. -/
  go : Report → Error
    | .plain _ => .backendExecution r
    | .typed e => e
    | .context _ inner => go inner

/-- Refuse an expression. -/
def refuse {α : Type} (why : Refusal) : Except Error α := .error (.unsupportedExpression why)

end EntityStore
