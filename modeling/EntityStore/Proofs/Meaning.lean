import EntityStore.Proofs.Agreement
import EntityStore.Proofs.Noninterference
import EntityStore.Proofs.Placeholders

/-!
What a predicate means to a database, told from the tree alone. Whatever the numbers of the
placeholders and the way the condition is written, the fragment that a tree is compiled to is true
of a row exactly when the meaning of the tree is; and whether a tree is compiled does not depend on
the numbers either. So fragments can be compared through their trees.
-/

namespace EntityStore

open Sql

namespace Sql

/-- Apply a sign to a value. -/
def Engine.signed (m : Engine) : Sign → Value → Value
  | .not, v => ofTruth ((m.truth? v).map (!·))
  | .minus, v => m.minus v

/-- A value where a truth value is called for: it is compared with one. -/
def Engine.stated (m : Engine) (v : Value) (truth : Bool) : Value :=
  if truth then m.binary .eq v (.int 1) else v

end Sql

/-- The value that a database gives a tree on a row; `truth` says whether a truth value is called
for. What has no written form means null. -/
def Expr.meaning (m : Engine) (row : String → Value) : Expr → Bool → Value
  | constant v, truth => m.stated v.kept truth
  | member record name, truth => m.stated ((record.member? name).getD .null).kept truth
  | field name, truth => m.stated (row name) truth
  | unary op x, _ =>
    match signOf op with
    | .ok sign => m.signed sign (x.meaning m row (op == .not))
    | .error _ => .null
  | binary op l r, _ =>
    match infixOf op with
    | .ok i => m.binary i (l.meaning m row op.isLogical) (r.meaning m row op.isLogical)
    | .error _ => .null
  | matching how x p, _ => m.binary .like (x.meaning m row false) (how.wrap (p.meaning m row false))
  | among x values, _ => ofTruth (m.isAmong (x.meaning m row false)
      (if values.isEmpty then [.null] else values.map Value.kept))

namespace Sql

section Connectives

variable (m : Engine) (row : String → Value) (x l r : Expr) (truth : Bool)

lemma truth?_ofTruth (t : Option Bool) : m.truth? (ofTruth t) = t := by
  rcases t with _ | _ | _ <;> rfl

lemma truth?_not : m.truth? ((Expr.unary .not x).meaning m row truth) =
    (m.truth? (x.meaning m row true)).map (!·) :=
  truth?_ofTruth m _

lemma truth?_and : m.truth? ((Expr.binary .and l r).meaning m row truth) =
    both (m.truth? (l.meaning m row true)) (m.truth? (r.meaning m row true)) :=
  truth?_ofTruth m _

lemma truth?_or : m.truth? ((Expr.binary .or l r).meaning m row truth) =
    either (m.truth? (l.meaning m row true)) (m.truth? (r.meaning m row true)) :=
  truth?_ofTruth m _

end Connectives

namespace Compiled

variable {m : Engine} {q : Dialect} {T : EntityType} {row : String → Value} {param : Nat → Value}
  {x p : Expr} {how : Matching} {v w : Value} {truth : Bool} {n : Nat} {c : Compiled}

lemma value_ofValue (h : ofValue v truth n = .ok c)
    (hp : ∀ i w, c.values[i]? = some w → param (n + i) = w.kept) :
    c.condition.value m row param = m.stated v.kept truth := by
  unfold ofValue at h
  cases truth with
  | false => cases h; exact hp 0 v rfl
  | true =>
    cases v with
    | bool b =>
      cases h
      have hparam : param n = (Value.bool b).kept := hp 0 _ rfl
      rw [Condition.value, Condition.value, Condition.value, hparam]
      rfl
    | _ => cases h

/-- The bound literal true is one, so a field is compared with one as a constant is. -/
lemma value_ofField {name : String} (h : ofField q T name truth n = .ok c)
    (hp : ∀ i w, c.values[i]? = some w → param (n + i) = w.kept) :
    c.condition.value m row param = m.stated (row name) truth := by
  unfold ofField at h
  split at h
  · split at h <;> cases h
  · cases truth with
    | false => cases h; rfl
    | true =>
      rw [if_neg (by decide)] at h
      split at h
      · cases h
      · cases h
        have hparam : param n = (Value.bool true).kept := hp 0 _ rfl
        rw [Condition.value, Condition.value, Condition.value, hparam]
        rfl

/-- What a match binds is the meaning of its pattern, between wildcards if it is a text. -/
lemma kept_of_pattern (hv : patternValue how p = .ok v) (hw : patternParameter how v = .ok w) :
    w.kept = how.wrap (p.meaning m row false) := by
  have hp : p.meaning m row false = v.kept := by
    cases p with
    | constant u => cases hv; rfl
    | member record name => rw [Expr.meaning, member?_of_member hv]; rfl
    | _ => cases hv
  rw [hp]
  cases v <;> cases hw <;> rfl

/-- Bound from `n` on, the parameters give a condition the meaning of its tree. The induction
follows the tree; the parts of a condition split its parameters between them. -/
lemma value_ofExpr (h : ofExpr q T x truth n = .ok c)
    (hp : ∀ i w, c.values[i]? = some w → param (n + i) = w.kept) :
    c.condition.value m row param = x.meaning m row truth := by
  induction x generalizing truth n c with
  | constant v => exact value_ofValue h hp
  | field name => exact value_ofField h hp
  | member record name =>
    obtain ⟨v, hv, h⟩ := except_bind_eq_ok.mp h
    rw [Expr.meaning, member?_of_member hv]
    exact value_ofValue h hp
  | unary op x ih =>
    obtain ⟨sign, hsign, h⟩ := except_bind_eq_ok.mp h
    obtain ⟨cx, hx, h⟩ := except_bind_eq_ok.mp h
    cases h
    simp only [Expr.meaning, hsign, ← ih hx hp]
    cases sign <;> rfl
  | binary op l r ihl ihr =>
    obtain ⟨i, hop, h⟩ := except_bind_eq_ok.mp h
    obtain ⟨cl, hl, h⟩ := except_bind_eq_ok.mp h
    obtain ⟨cr, hr, h⟩ := except_bind_eq_ok.mp h
    cases h
    obtain ⟨hpl, hpr⟩ := params_append hp
    simp only [Expr.meaning, hop, ← ihl hl hpl, ← ihr hr hpr]
    rfl
  | matching how x p ih _ =>
    obtain ⟨cx, hx, h⟩ := except_bind_eq_ok.mp h
    obtain ⟨v, hv, h⟩ := except_bind_eq_ok.mp h
    obtain ⟨w, hw, h⟩ := except_bind_eq_ok.mp h
    cases h
    obtain ⟨hpx, hpw⟩ := params_append hp
    have hparam : param (n + cx.values.length) = w.kept := hpw 0 w rfl
    rw [Condition.value, Condition.value, hparam, ih hx hpx, kept_of_pattern hv hw, Expr.meaning]
  | among x values ih =>
    obtain ⟨cx, hx, h⟩ := except_bind_eq_ok.mp h
    cases h
    obtain ⟨hpx, hpv⟩ := params_append hp
    have hempty : (List.range' (n + cx.values.length) values.length).isEmpty = values.isEmpty := by
      cases values <;> rfl
    rw [Condition.value, ih hx hpx, hempty, map_range'_of_params hpv, Expr.meaning]

/-- A tree is compiled, or refused for one reason, from any number on. -/
lemma verdict_ofExpr (x : Expr) (truth : Bool) (n n' : Nat) :
    (ofExpr q T x truth n).map (fun _ => ()) = (ofExpr q T x truth n').map fun _ => () := by
  have hvalue : ∀ (v : Value) (truth : Bool) (n n' : Nat),
      (ofValue v truth n).map (fun _ => ()) = (ofValue v truth n').map fun _ => () := by
    intro v truth n n'
    cases truth <;> cases v <;> rfl
  induction x generalizing truth n n' with
  | constant v => exact hvalue v truth n n'
  | field name =>
    simp only [ofExpr, ofField]
    split
    · rfl
    · split
      · rfl
      · split <;> rfl
  | member record name =>
    refine except_map_bind_congr (o := id) rfl fun v w h => ?_
    cases h
    exact hvalue v truth n n'
  | unary op x ih =>
    refine except_map_bind_congr (o := id) rfl fun _ _ _ => ?_
    exact except_map_bind_congr (ih (op == .not) n n') fun _ _ _ => rfl
  | binary op l r ihl ihr =>
    refine except_map_bind_congr (o := id) rfl fun _ _ _ => ?_
    refine except_map_bind_congr (ihl op.isLogical n n') fun c c' _ => ?_
    exact except_map_bind_congr (ihr op.isLogical _ _) fun _ _ _ => rfl
  | matching how x p ih _ =>
    refine except_map_bind_congr (ih false n n') fun _ _ _ => ?_
    refine except_map_bind_congr (o := id) rfl fun v w h => ?_
    cases h
    exact except_map_bind_congr (o := id) rfl fun _ _ _ => rfl
  | among x values ih => exact except_map_bind_congr (ih false n n') fun _ _ _ => rfl

end Compiled

variable {q : Dialect} {T : EntityType} {x : Expr} {f : Fragment}

lemma verdict_compile (x : Expr) : (compile q T x).map (fun _ => ()) =
    (Compiled.ofExpr q T x true 0).map fun _ => () := by
  rw [compile]
  cases Compiled.ofExpr q T x true 0 <;> rfl

/-- **A fragment says what its tree means.** It is true of a row when the tree is. -/
theorem isTrue_iff (hq : q.Legible) (hT : ∀ f ∈ T.fields, q.closing ∉ f.name.toList)
    (h : compile q T x = .ok f) (m : Engine) (row : String → Value) :
    f.IsTrue m q row ↔ m.truth? (x.meaning m row true) = some true := by
  rcases hc : Compiled.ofExpr q T x true 0 with err | c
  · rw [compile, hc] at h; cases h
  · rw [compile, hc] at h
    cases h
    have hbound : ∀ i w, c.values[i]? = some w → (c.fragment q).bound q (0 + i) = w.kept := by
      intro i w hi
      rw [Nat.zero_add, bound_fragment hi]
    rw [Fragment.IsTrue, read_compile hq hT hc, ← Compiled.value_ofExpr hc hbound]
    simp

end Sql

end EntityStore
