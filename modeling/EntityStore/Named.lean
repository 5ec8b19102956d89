/-!
Things kept under keys, most often names. A key keeps its place when the thing under it changes.
-/

namespace EntityStore

/-- Things by key, in the order in which the keys came. -/
abbrev Keyed (κ α : Type) := List (κ × α)

/-- Things by name. -/
abbrev Named (α : Type) := Keyed String α

namespace Keyed

variable {κ α : Type} [DecidableEq κ]

def get? (n : Keyed κ α) (key : κ) : Option α := n.lookup key

/-- Put a thing under a key, old or new. -/
def put : Keyed κ α → κ → α → Keyed κ α
  | [], key, a => [(key, a)]
  | (k, b) :: rest, key, a => if k = key then (key, a) :: rest else (k, b) :: put rest key a

/-- Put things one after another; of two under one key the later stays. -/
def ofList (ps : List (κ × α)) : Keyed κ α := ps.foldl (fun n p => n.put p.1 p.2) []

@[simp] theorem get?_put_self (n : Keyed κ α) (key : κ) (a : α) :
    (n.put key a).get? key = some a := by
  induction n with
  | nil => simp [put, get?]
  | cons p rest ih =>
    obtain ⟨k, b⟩ := p
    by_cases h : k = key
    · simp [put, h, get?]
    · have hb : (key == k) = false := by simpa using fun e => h e.symm
      simpa [put, h, get?, List.lookup_cons, hb] using ih

@[simp] theorem get?_put_of_ne (n : Keyed κ α) {key other : κ} (a : α) (h : other ≠ key) :
    (n.put key a).get? other = n.get? other := by
  have hb : (other == key) = false := by simpa using h
  induction n with
  | nil => simp [put, get?, List.lookup_cons, hb]
  | cons p rest ih =>
    obtain ⟨k, b⟩ := p
    by_cases hk : k = key
    · subst hk
      simp [put, get?, List.lookup_cons, hb]
    · simp only [get?] at ih
      simp [put, hk, get?, List.lookup_cons, ih]

end Keyed

end EntityStore
