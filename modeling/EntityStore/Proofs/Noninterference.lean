import EntityStore.Proofs.Skeleton

/-!
No value reaches the text of a compiled predicate. Two trees that differ only in what their values
hold, not in the kinds of these, are compiled to one text with placeholders of the same names, or
are refused for one reason.
-/

namespace EntityStore

open Sql

/-- The two trees have one shape: the same nodes, and in corresponding places values of one kind.
Captured records may differ in all but their type and the kind of the member that is named. -/
inductive Expr.Alike : Expr → Expr → Prop
  | constant {v w : Value} (kind : v.kind = w.kind) : Alike (.constant v) (.constant w)
  | field (name : String) : Alike (.field name) (.field name)
  | member {c c' : Captured} {name : String} (type : c.typeName = c'.typeName)
    (kind : (c.member? name).map Value.kind = (c'.member? name).map Value.kind) :
    Alike (.member c name) (.member c' name)
  | unary {op : UnaryOp} {x x' : Expr} (operand : Alike x x') : Alike (.unary op x) (.unary op x')
  | binary {op : BinaryOp} {l l' r r' : Expr} (left : Alike l l') (right : Alike r r') :
    Alike (.binary op l r) (.binary op l' r')
  | matching {how : Matching} {x x' p p' : Expr} (target : Alike x x') (pattern : Alike p p') :
    Alike (.matching how x p) (.matching how x' p')
  | among {x x' : Expr} {vs ws : List Value} (target : Alike x x')
    (kinds : vs.map Value.kind = ws.map Value.kind) : Alike (.among x vs) (.among x' ws)

/-! ### What does not depend on values -/

/-- Parts with one outline, followed by parts with one outline, have one outline. -/
lemma except_map_bind_congr {ε α β γ δ : Type} {o : α → γ} {p : β → δ} {x y : Except ε α}
    {f g : α → Except ε β} (h : x.map o = y.map o)
    (hfg : ∀ a b, o a = o b → (f a).map p = (g b).map p) : (x >>= f).map p = (y >>= g).map p := by
  rcases x with e | a <;> rcases y with e' | b
  · cases h; rfl
  · cases h
  · cases h
  · exact hfg a b (Except.ok.inj h)

lemma Captured.kind_member {c c' : Captured} {name : String} (type : c.typeName = c'.typeName)
    (kind : (c.member? name).map Value.kind = (c'.member? name).map Value.kind) :
    (c.member name).map Value.kind = (c'.member name).map Value.kind := by
  unfold Captured.member
  rcases h : c.member? name with _ | v <;> rcases h' : c'.member? name with _ | w <;>
    rw [h, h'] at kind
  · rw [type]
  · cases kind
  · cases kind
  · exact congrArg Except.ok (Option.some.inj kind)

namespace Sql.Compiled

/-- What is left of a compiled tree when its values are taken out. -/
def outline (c : Compiled) : Condition × List Kind := (c.condition, c.values.map Value.kind)

variable {d : Dialect} {T : EntityType} {truth : Bool} {n : Nat} {c c' : Compiled}

lemma condition_eq (h : c.outline = c'.outline) : c.condition = c'.condition :=
  congrArg Prod.fst h

lemma kinds_eq (h : c.outline = c'.outline) : c.values.map Value.kind = c'.values.map Value.kind :=
  congrArg Prod.snd h

lemma length_eq (h : c.outline = c'.outline) : c.values.length = c'.values.length := by
  have := congrArg List.length (kinds_eq h)
  simpa using this

lemma outline_ofValue {v w : Value} (h : v.kind = w.kind) :
    (ofValue v truth n).map outline = (ofValue w truth n).map outline := by
  cases truth with
  | false => simp [ofValue, Except.map, outline, h]
  | true => cases v <;> cases w <;> cases h <;> rfl

lemma kind_patternValue {how : Matching} {p p' : Expr} (h : p.Alike p') :
    (patternValue how p).map Value.kind = (patternValue how p').map Value.kind := by
  cases h with
  | constant kind => exact congrArg Except.ok kind
  | member type kind => exact Captured.kind_member type kind
  | _ => rfl

lemma kind_patternParameter {how : Matching} {v w : Value} (h : v.kind = w.kind) :
    (patternParameter how v).map Value.kind = (patternParameter how w).map Value.kind := by
  cases v <;> cases w <;> cases h <;> rfl

/-- Trees of one shape have one outline, or are refused alike. The induction follows the shape, in
any position and from any number on. -/
lemma outline_ofExpr {x y : Expr} (h : x.Alike y) :
    (ofExpr d T x truth n).map outline = (ofExpr d T y truth n).map outline := by
  induction h generalizing truth n with
  | constant kind => exact outline_ofValue kind
  | field name => rfl
  | member type kind =>
    exact except_map_bind_congr (Captured.kind_member type kind) fun v w h => outline_ofValue h
  | @unary op x x' _ ih =>
    refine except_map_bind_congr (o := id) rfl fun sign _ hsign => ?_
    cases hsign
    refine except_map_bind_congr ih fun c c' h => ?_
    simp [Except.map, outline, pure, Except.pure, condition_eq h, kinds_eq h]
  | @binary op l l' r r' _ _ ihl ihr =>
    refine except_map_bind_congr (o := id) rfl fun op' _ hop => ?_
    cases hop
    refine except_map_bind_congr ihl fun c c' hl => ?_
    rw [length_eq hl]
    refine except_map_bind_congr ihr fun b b' hr => ?_
    simp [Except.map, outline, pure, Except.pure, condition_eq hl, kinds_eq hl, condition_eq hr,
      kinds_eq hr]
  | @matching how x x' p p' _ hp ih _ =>
    refine except_map_bind_congr ih fun c c' h => ?_
    refine except_map_bind_congr (kind_patternValue hp) fun v w hv => ?_
    refine except_map_bind_congr (kind_patternParameter hv) fun v w hv => ?_
    simp [Except.map, outline, pure, Except.pure, condition_eq h, kinds_eq h, length_eq h, hv]
  | @among x x' vs ws _ kinds ih =>
    refine except_map_bind_congr ih fun c c' h => ?_
    have hlength : vs.length = ws.length := by simpa using congrArg List.length kinds
    simp [Except.map, outline, pure, Except.pure, condition_eq h, kinds_eq h, length_eq h, hlength,
      kinds]

end Sql.Compiled

namespace Sql

/-- Numbers, names and kinds of the parameters are those of the outline. -/
lemma params_fragment {d : Dialect} {c c' : Compiled} (h : c.outline = c'.outline) :
    (c.fragment d).params.map (fun p => (p.id, p.name, p.value.kind)) =
      (c'.fragment d).params.map fun p => (p.id, p.name, p.value.kind) := by
  have hkinds : ∀ c : Compiled, (c.fragment d).params.map (fun p => (p.id, p.name, p.value.kind)) =
      ((c.values.map Value.kind).zipIdx).map fun p => (p.2, d.numbered p.2, p.1) := by
    intro c
    simp [Compiled.fragment, List.zipIdx_map]
  rw [hkinds, hkinds, Compiled.kinds_eq h]

/-- **No value reaches the text.** Two trees of one shape are both compiled, to the same text and to
parameters of the same numbers, names and kinds, or both refused with the same error. -/
theorem compile_noninterference {x y : Expr} (h : x.Alike y) (d : Dialect) (T : EntityType) :
    (∃ f g, compile d T x = .ok f ∧ compile d T y = .ok g ∧ f.text = g.text ∧
      f.params.map (fun p => (p.id, p.name, p.value.kind)) =
        g.params.map (fun p => (p.id, p.name, p.value.kind))) ∨
    ∃ e, compile d T x = .error e ∧ compile d T y = .error e := by
  have houtline : (Compiled.ofExpr d T x true 0).map Compiled.outline =
      (Compiled.ofExpr d T y true 0).map Compiled.outline := Compiled.outline_ofExpr h
  unfold compile
  generalize Compiled.ofExpr d T x true 0 = rx at houtline ⊢
  generalize Compiled.ofExpr d T y true 0 = ry at houtline ⊢
  rcases rx with e | c <;> rcases ry with e' | c'
  · cases houtline
    exact .inr ⟨e, rfl, rfl⟩
  · cases houtline
  · cases houtline
  · have hc : c.outline = c'.outline := Except.ok.inj houtline
    refine .inl ⟨c.fragment d, c'.fragment d, rfl, rfl, ?_, params_fragment hc⟩
    rw [Compiled.fragment, Compiled.fragment, Compiled.condition_eq hc]

end Sql

namespace Club

/-- Called by a name, and of one of two ages. -/
def namesake (name : String) (age other : Int64) : Expr :=
  .binary .and (.matching .startsWith (.field "name") (.constant (.text name)))
    (.among (.field "age") [.int age, .int other])

lemma namesake_alike (name name' : String) (age age' other other' : Int64) :
    (namesake name age other).Alike (namesake name' age' other') :=
  .binary (.matching (.field _) (.constant rfl)) (.among (.field _) rfl)

/-- A name made to look like a piece of text leaves the text as it is. -/
theorem hostile_namesake : ∃ f g,
    compile .sqlServer member.type (namesake "Ann" 65 66) = .ok f ∧
    compile .sqlServer member.type (namesake "') OR (1 = 1" 0 (-1)) = .ok g ∧ f.text = g.text ∧
    g.text = "(([name] LIKE @0) AND ([age] IN (@1,@2)))" := by
  have h := compile_noninterference (namesake_alike "Ann" "') OR (1 = 1" 65 0 66 (-1)) .sqlServer
    member.type
  rcases h with ⟨f, g, hf, hg, htext, -⟩ | ⟨e, he, -⟩
  · refine ⟨f, g, hf, hg, htext, ?_⟩
    cases hg
    rfl
  · cases he

end Club

end EntityStore
