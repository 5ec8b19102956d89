import EntityStore.Proofs.Connectives

/-!
Membership as a disjunction of equalities. Equality is refused for values that do not compare, where
membership goes on to the next value of the list; and a disjunction passes over all that follows the
first equality that holds. What a disjunction decides, nested in any way, membership decides alike,
and membership fails only with the tree that is looked for.
-/

namespace EntityStore

namespace Value

/-- Where equality is defined, it is what membership looks for. -/
lemma compare?_of_equals {v w : Value} {b : Bool} (h : v.equals w = .ok b) :
    (v.compare? w == some .eq) = b := by
  unfold equals at h
  split at h
  · cases h; rfl
  · rename_i hnull
    cases h
    cases w with
    | null => exact absurd rfl hnull
    | _ => rfl
  · rename_i hnull
    cases h
    cases v with
    | null => exact absurd rfl hnull
    | _ => rfl
  · split at h
    · rename_i o ho
      cases h
      rw [ho]
      cases o <;> rfl
    · cases h

lemma isAmong_append (v : Value) (vs ws : List Value) :
    v.isAmong (vs ++ ws) = (v.isAmong vs || v.isAmong ws) := by
  simp [isAmong]

end Value

/-- A way to join a list of values two by two. -/
inductive Nesting where
  | value (v : Value)
  | join (l r : Nesting)

namespace Nesting

/-- The values from left to right. -/
def values : Nesting → List Value
  | value v => [v]
  | join l r => l.values ++ r.values

/-- The disjunction of the equalities of a tree with the values. -/
def disjunction (x : Expr) : Nesting → Expr
  | value v => .binary .eq x (.constant v)
  | join l r => .binary .or (l.disjunction x) (r.disjunction x)

/-- Each value is joined with all that follow. -/
def right (v : Value) : List Value → Nesting
  | [] => value v
  | w :: ws => join (value v) (right w ws)

/-- Each value is joined with all that come before. -/
def left (v : Value) (vs : List Value) : Nesting := vs.foldl (fun n w => join n (value w)) (value v)

@[simp] lemma values_right (v : Value) (vs : List Value) : (right v vs).values = v :: vs := by
  induction vs generalizing v with
  | nil => rfl
  | cons w ws ih => rw [right, values, ih]; rfl

lemma values_foldl (n : Nesting) (vs : List Value) :
    (vs.foldl (fun n w => join n (value w)) n).values = n.values ++ vs := by
  induction vs generalizing n with
  | nil => simp
  | cons w ws ih => rw [List.foldl_cons, ih]; simp [values]

@[simp] lemma values_left (v : Value) (vs : List Value) : (left v vs).values = v :: vs :=
  values_foldl (value v) vs

end Nesting

namespace Expr

variable {T : EntityType} {e : Entity} {x l r : Expr} {b : Bool}

/-! ### Decisions -/

lemma satisfied_equality (x : Expr) (v : Value) : (binary .eq x (.constant v)).satisfied T e =
    x.eval T e >>= fun u => u.equals v := by
  rw [satisfied, (eval_of_not_logical rfl).1]
  rcases x.eval T e with err | u
  · rfl
  · rw [ok_bind, ok_bind, eval, ok_bind, Value.binary]
    rcases u.equals v with err | b <;> rfl

lemma satisfied_or (l r : Expr) : (binary .or l r).satisfied T e =
    l.satisfied T e >>= fun a => if a then .ok true else r.satisfied T e := by
  rw [satisfied, eval_or]
  rcases l.satisfied T e with err | a
  · rfl
  · cases a with
    | false => rcases r.satisfied T e with err | b <;> rfl
    | true => rfl

lemma satisfied_among (x : Expr) (values : List Value) : (among x values).satisfied T e =
    (x.eval T e).map fun u => u.isAmong values := by
  rw [satisfied, eval]
  rcases x.eval T e with err | u <;> rfl

/-- What a disjunction of equalities decides is whether one of them holds, without a refusal. The
induction is on the nesting: the first part that holds ends the search, and a part that does not
leaves it to the rest. -/
lemma isAmong_of_disjunction {n : Nesting} (h : (n.disjunction x).satisfied T e = .ok b) :
    ∃ u, x.eval T e = .ok u ∧ u.isAmong n.values = b := by
  induction n generalizing b with
  | value v =>
    rw [Nesting.disjunction, satisfied_equality, except_bind_eq_ok] at h
    obtain ⟨u, hu, heq⟩ := h
    refine ⟨u, hu, ?_⟩
    rw [Nesting.values, Value.isAmong, List.any_cons, List.any_nil, Bool.or_false]
    exact Value.compare?_of_equals heq
  | join l r ihl ihr =>
    rw [Nesting.disjunction, satisfied_or, except_bind_eq_ok] at h
    obtain ⟨a, hl, h⟩ := h
    obtain ⟨u, hu, hamong⟩ := ihl hl
    refine ⟨u, hu, ?_⟩
    rw [Nesting.values, Value.isAmong_append, hamong]
    cases a with
    | true => cases h; rfl
    | false =>
      obtain ⟨u', hu', hrest⟩ := ihr h
      obtain rfl : u = u' := Except.ok.inj (hu.symm.trans hu')
      exact hrest

/-- **Membership is a disjunction of equalities.** Whatever a disjunction of the equalities of a
tree with the values of a list decides, nested to the right, to the left or in any way, membership
in the list decides alike. Membership fails just where the tree does, in the same way. -/
theorem among_of_disjunction (T : EntityType) (e : Entity) (x : Expr) (v : Value)
    (vs : List Value) :
    (Nesting.right v vs).values = v :: vs ∧ (Nesting.left v vs).values = v :: vs ∧
    (∀ n : Nesting, n.values = v :: vs → ∀ b, (n.disjunction x).satisfied T e = .ok b →
      (among x (v :: vs)).satisfied T e = .ok b) ∧
    ∀ err, (among x (v :: vs)).satisfied T e = .error err ↔ x.eval T e = .error err := by
  refine ⟨Nesting.values_right v vs, Nesting.values_left v vs, fun n hn b h => ?_, fun err => ?_⟩
  · obtain ⟨u, hu, hamong⟩ := isAmong_of_disjunction h
    rw [satisfied_among, hu, ← hn, ← hamong]
    rfl
  · rw [satisfied_among]
    rcases x.eval T e with err' | u <;> simp [Except.map]

end Expr

namespace Club

/-- Of no age, of that of Bob, or of one that is no number. -/
def ages : Nesting := .right .null [.int 40, .text "old"]

/-- Bob is found in the list before the text that his age does not compare with. -/
theorem bob_among : ages.values = [.null, .int 40, .text "old"] ∧
    (ages.disjunction (.field "age")).satisfied member.type bob = .ok true ∧
    (Expr.among (.field "age") [.null, .int 40, .text "old"]).satisfied member.type bob =
      .ok true := by
  obtain ⟨hright, -, hagrees, -⟩ := Expr.among_of_disjunction member.type bob (.field "age") .null
    [.int 40, .text "old"]
  exact ⟨hright, rfl, hagrees ages hright true rfl⟩

end Club

end EntityStore
