/-!
Computations on a state that may fail. What one changed before it failed stays changed.
-/

namespace EntityStore

/-- A computation on a state that may fail. -/
abbrev Fallible (σ ε α : Type) := ExceptT ε (StateM σ) α

namespace Fallible

variable {σ ε ε' α β : Type}

/-- A result that needs nothing of the state. -/
def ofExcept (x : Except ε α) : Fallible σ ε α := fun s => (x, s)

@[simp] theorem ofExcept_apply (x : Except ε α) (s : σ) :
    (ofExcept x : Fallible σ ε α) s = (x, s) := rfl

@[simp] theorem pure_apply (a : α) (s : σ) : (pure a : Fallible σ ε α) s = (.ok a, s) := rfl

@[simp] theorem throw_apply (e : ε) (s : σ) :
    (throw e : Fallible σ ε α) s = (.error e, s) := rfl

@[simp] theorem modify_apply (f : σ → σ) (s : σ) :
    (modify f : Fallible σ ε PUnit) s = (.ok ⟨⟩, f s) := rfl

@[simp] theorem get_apply (s : σ) : (get : Fallible σ ε σ) s = (.ok s, s) := rfl

theorem bind_apply (x : Fallible σ ε α) (f : α → Fallible σ ε β) (s : σ) :
    (x >>= f) s = match x s with
      | (.ok a, s) => f a s
      | (.error e, s) => (.error e, s) := by
  change (ExceptT.bindCont f (x s).1) (x s).2 = _
  rcases x s with ⟨_ | _, _⟩ <;> rfl

/-- A first part that goes through hands on its result and the state it left. -/
theorem bind_of_ok {x : Fallible σ ε α} {f : α → Fallible σ ε β} {s s' : σ} {a : α}
    (h : x s = (.ok a, s')) : (x >>= f) s = f a s' := by
  rw [bind_apply, h]

/-- A first part that fails ends the computation. -/
theorem bind_of_error {x : Fallible σ ε α} {f : α → Fallible σ ε β} {s s' : σ} {e : ε}
    (h : x s = (.error e, s')) : (x >>= f) s = (.error e, s') := by
  rw [bind_apply, h]

/-- What is caught goes on in the state that the failure left. -/
theorem tryCatch_apply (x : Fallible σ ε α) (f : ε → Fallible σ ε α) (s : σ) :
    (tryCatch x f : Fallible σ ε α) s = match x s with
      | (.ok a, s) => (.ok a, s)
      | (.error e, s) => f e s := by
  change (match (x s).1 with
    | .ok a => pure (Except.ok a)
    | .error e => f e : StateM σ (Except ε α)) (x s).2 = _
  rcases x s with ⟨_ | _, _⟩ <;> rfl

/-- To change how a failure is put changes nothing else. -/
theorem adapt_apply (f : ε → ε') (x : Fallible σ ε α) (s : σ) :
    (x.adapt f : Fallible σ ε' α) s = ((x s).1.mapError f, (x s).2) := rfl

end Fallible

end EntityStore
