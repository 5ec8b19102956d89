/-!
Search and replacement in lists of characters. Occurrences are taken from the left and do not
overlap.
-/

namespace EntityStore.Text

/-- Whether the pattern occurs anywhere in the text. -/
def occurs (pattern : List Char) : List Char → Bool
  | [] => pattern.isEmpty
  | c :: s => pattern.isPrefixOf (c :: s) || occurs pattern s

/-- Replace every occurrence of a pattern that is not empty; `skip` characters are still covered by
the occurrence found last. -/
def substituteFrom (pattern new : List Char) : Nat → List Char → List Char
  | _, [] => []
  | skip + 1, _ :: s => substituteFrom pattern new skip s
  | 0, c :: s =>
    if pattern.isPrefixOf (c :: s) then new ++ substituteFrom pattern new (pattern.length - 1) s
    else c :: substituteFrom pattern new 0 s

/-- Replace every occurrence of the pattern. The empty one occurs before each character and at the
end. -/
def substitute (pattern new s : List Char) : List Char :=
  if pattern.isEmpty then new ++ s.flatMap (· :: new)
  else substituteFrom pattern new 0 s

end EntityStore.Text
