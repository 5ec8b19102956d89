import EntityStore.Proofs.Meaning

/-!
Membership in no values, wherever connectives have put it. In memory it is false. To a database it
is a comparison with a null, so unknown: that selects like false as long as an even number of
negations stands above it, and like true, not false, under an odd number.
-/

namespace EntityStore

open Sql

/-- A tree with a hole below connectives. -/
inductive Surrounding where
  | hole
  | not (operand : Surrounding)
  | andLeft (left : Surrounding) (right : Expr)
  | andRight (left : Expr) (right : Surrounding)
  | orLeft (left : Surrounding) (right : Expr)
  | orRight (left : Expr) (right : Surrounding)

namespace Surrounding

/-- The tree with something in the place of the hole. -/
def fill (x : Expr) : Surrounding → Expr
  | hole => x
  | not c => .unary .not (c.fill x)
  | andLeft c r => .binary .and (c.fill x) r
  | andRight l c => .binary .and l (c.fill x)
  | orLeft c r => .binary .or (c.fill x) r
  | orRight l c => .binary .or l (c.fill x)

/-- Whether the number of negations above the hole is even. -/
def positive : Surrounding → Bool
  | hole => true
  | not c => !c.positive
  | andLeft c _ | andRight _ c | orLeft c _ | orRight _ c => c.positive

variable (c : Surrounding) {x y : Expr}

/-- Trees with one value have one value in any surrounding. -/
lemma eval_fill_congr {T : EntityType} {e : Entity} (h : x.eval T e = y.eval T e) :
    (c.fill x).eval T e = (c.fill y).eval T e := by
  induction c with
  | hole => exact h
  | not c ih => simp only [fill, Expr.eval, ih]
  | andLeft c r ih => simp only [fill, Expr.eval, ih]
  | andRight l c ih => simp only [fill, Expr.eval, ih]
  | orLeft c r ih => simp only [fill, Expr.eval, ih]
  | orRight l c ih => simp only [fill, Expr.eval, ih]

/-- Trees that are compiled where a truth value is called for are exchanged without a difference to
whether the whole is compiled. The numbers behind the hole may change. -/
lemma verdict_fill_congr {q : Dialect} {T : EntityType}
    (h : ∀ n n', (Compiled.ofExpr q T x true n).map (fun _ => ()) =
      (Compiled.ofExpr q T y true n').map fun _ => ()) (n n' : Nat) :
    (Compiled.ofExpr q T (c.fill x) true n).map (fun _ => ()) =
      (Compiled.ofExpr q T (c.fill y) true n').map fun _ => () := by
  induction c generalizing n n' with
  | hole => exact h n n'
  | not c ih =>
    refine except_map_bind_congr (o := id) rfl fun _ _ _ => ?_
    exact except_map_bind_congr (ih n n') fun _ _ _ => rfl
  | andLeft c r ih | orLeft c r ih =>
    refine except_map_bind_congr (o := id) rfl fun _ _ _ => ?_
    refine except_map_bind_congr (ih n n') fun _ _ _ => ?_
    exact except_map_bind_congr (Compiled.verdict_ofExpr r _ _ _) fun _ _ _ => rfl
  | andRight l c ih | orRight l c ih =>
    refine except_map_bind_congr (o := id) rfl fun _ _ _ => ?_
    refine except_map_bind_congr (Compiled.verdict_ofExpr l _ n n') fun _ _ _ => ?_
    exact except_map_bind_congr (ih _ _) fun _ _ _ => rfl

end Surrounding

/-! ### Unknown in the place of a truth value -/

/-- Two truth values that are equal, or of which one is unknown and the other is `b`. -/
def Blurs (b : Bool) (t u : Option Bool) : Prop := t = u ∨ t = none ∧ u = some b

instance (b : Bool) (t u : Option Bool) : Decidable (Blurs b t u) :=
  inferInstanceAs (Decidable (_ ∨ _))

namespace Blurs

variable {b b' : Bool} {t u : Option Bool} {f : Option Bool → Option Bool}

/-- What blurs by `b'` when it is given the unknown for `b` blurs whatever blurs by `b`. -/
lemma map (h : Blurs b t u) (hf : Blurs b' (f none) (f (some b))) : Blurs b' (f t) (f u) := by
  rcases h with rfl | ⟨rfl, rfl⟩
  · exact .inl rfl
  · exact hf

lemma not (h : Blurs b t u) : Blurs (!b) (t.map (!·)) (u.map (!·)) :=
  h.map (f := Option.map (!·)) (.inr ⟨rfl, rfl⟩)

lemma both_left (h : Blurs b t u) (w : Option Bool) : Blurs b (both t w) (both u w) := by
  have hf : Blurs b (both none w) (both (some b) w) := by
    rcases w with _ | _ | _ <;> cases b <;> decide
  exact h.map (f := (both · w)) hf

lemma both_right (h : Blurs b t u) (w : Option Bool) : Blurs b (both w t) (both w u) := by
  have hf : Blurs b (both w none) (both w (some b)) := by
    rcases w with _ | _ | _ <;> cases b <;> decide
  exact h.map hf

lemma either_left (h : Blurs b t u) (w : Option Bool) : Blurs b (either t w) (either u w) := by
  have hf : Blurs b (either none w) (either (some b) w) := by
    rcases w with _ | _ | _ <;> cases b <;> decide
  exact h.map (f := (either · w)) hf

lemma either_right (h : Blurs b t u) (w : Option Bool) : Blurs b (either w t) (either w u) := by
  have hf : Blurs b (either w none) (either w (some b)) := by
    rcases w with _ | _ | _ <;> cases b <;> decide
  exact h.map hf

end Blurs

namespace Surrounding

variable {m : Engine} {row : String → Value} {x y : Expr}

/-- An unknown in the hole is carried up as `b` is, turned over by each negation. The induction goes
from the hole outward. -/
lemma blurs_fill {b : Bool} (hx : m.truth? (x.meaning m row true) = none)
    (hy : m.truth? (y.meaning m row true) = some b) (c : Surrounding) :
    Blurs (b == c.positive) (m.truth? ((c.fill x).meaning m row true))
      (m.truth? ((c.fill y).meaning m row true)) := by
  induction c with
  | hole => exact .inr ⟨hx, by rw [fill, hy, positive, beq_true]⟩
  | not c ih =>
    have hturned : (b == (not c).positive) = !(b == c.positive) := by
      rw [positive]
      cases b <;> cases c.positive <;> rfl
    rw [hturned, fill, fill, truth?_not, truth?_not]
    exact ih.not
  | andLeft c r ih => rw [fill, fill, truth?_and, truth?_and]; exact ih.both_left _
  | andRight l c ih => rw [fill, fill, truth?_and, truth?_and]; exact ih.both_right _
  | orLeft c r ih => rw [fill, fill, truth?_or, truth?_or]; exact ih.either_left _
  | orRight l c ih => rw [fill, fill, truth?_or, truth?_or]; exact ih.either_right _

end Surrounding

/-! ### Membership in no values -/

variable {d : Declaration} {q : Dialect} {name : String}

lemma eval_among_nil (hname : d.type.declares name) {e : Entity} (he : d.Fits e.scalars) :
    (Expr.among (.field name) []).eval d.type e = .ok (.bool false) := by
  have hdeclared : name ∈ d.fields.map Prod.fst := by
    obtain ⟨f, hf, hfn⟩ := List.any_eq_true.mp hname
    obtain ⟨p, hp, rfl⟩ := List.mem_map.mp hf
    exact List.mem_map.mpr ⟨p, hp, by simpa using hfn⟩
  obtain ⟨k, v, -, hv, -⟩ := he.lookup hdeclared
  have hread : d.type.read? e name = some v := hv
  rw [Expr.eval, Expr.eval, EntityType.read, hread]
  rfl

/-- Where a truth value is called for, the test is compiled as a bool constant is. -/
lemma verdict_among_nil {T : EntityType} (hname : T.declares name) (b : Bool) (n n' : Nat) :
    (Compiled.ofExpr q T (.among (.field name) []) true n).map (fun _ => ()) =
      (Compiled.ofExpr q T (.constant (.bool b)) true n').map fun _ => () := by
  obtain ⟨f, hf⟩ : ∃ f, T.field? name = some f := by
    rw [← Option.isSome_iff_exists, EntityType.field?, List.find?_isSome]
    exact List.any_eq_true.mp hname
  simp only [Compiled.ofExpr, Compiled.ofField, hf]
  rfl

/-- A comparison with a null is unknown. -/
lemma truth?_among_nil (x : Expr) (m : Engine) (row : String → Value) :
    m.truth? ((Expr.among x []).meaning m row true) = none := by
  have hnull : ∀ v, m.isAmong v [.null] = none := by
    intro v
    cases v <;> rfl
  exact (truth?_ofTruth m _).trans (hnull _)

lemma truth?_constant (m : Engine) (row : String → Value) (b : Bool) :
    m.truth? ((Expr.constant (.bool b)).meaning m row true) = some b := by
  cases b <;> rfl

/-- **Membership in no values.** In memory the test is false in every surrounding. Compiled, the
whole is refused as it is with either bool for the test, or accepted as it is with either; then it
selects the same rows as with false for the test when an even number of negations stands above it,
and with true when an odd number does. -/
theorem empty_membership (hq : q.Legible) (hd : ∀ f ∈ d.type.fields, q.closing ∉ f.name.toList)
    (hname : d.type.declares name) (c : Surrounding) :
    (∀ e : Entity, d.Fits e.scalars → (c.fill (.among (.field name) [])).satisfied d.type e =
      (c.fill (.constant (.bool false))).satisfied d.type e) ∧
    ((∃ err, compile q d.type (c.fill (.among (.field name) [])) = .error err ∧
        ∀ b, compile q d.type (c.fill (.constant (.bool b))) = .error err) ∨
      ∃ f, compile q d.type (c.fill (.among (.field name) [])) = .ok f ∧
        ∀ b, ∃ g, compile q d.type (c.fill (.constant (.bool b))) = .ok g ∧
          (b = !c.positive → ∀ m row, f.IsTrue m q row ↔ g.IsTrue m q row)) := by
  refine ⟨fun e he => ?_, ?_⟩
  · rw [Expr.satisfied, Expr.satisfied,
      c.eval_fill_congr (y := .constant (.bool false)) (eval_among_nil hname he)]
  have hverdict : ∀ b, (compile q d.type (c.fill (.among (.field name) []))).map (fun _ => ()) =
      (compile q d.type (c.fill (.constant (.bool b)))).map fun _ => () := by
    intro b
    rw [verdict_compile, verdict_compile]
    exact c.verdict_fill_congr (verdict_among_nil hname b) 0 0
  rcases hf : compile q d.type (c.fill (.among (.field name) [])) with err | f
  · refine .inl ⟨err, rfl, fun b => ?_⟩
    have h := hverdict b
    rw [hf] at h
    rcases hb : compile q d.type (c.fill (.constant (.bool b))) with err' | g
    · rw [hb] at h; cases h; rfl
    · rw [hb] at h; cases h
  · refine .inr ⟨f, rfl, fun b => ?_⟩
    have h := hverdict b
    rw [hf] at h
    rcases hg : compile q d.type (c.fill (.constant (.bool b))) with err' | g
    · rw [hg] at h; cases h
    · refine ⟨g, rfl, ?_⟩
      rintro rfl m row
      have hblurs := Surrounding.blurs_fill (truth?_among_nil (.field name) m row)
        (truth?_constant m row !c.positive) c
      have hfalse : ((!c.positive) == c.positive) = false := by cases c.positive <;> rfl
      rw [hfalse] at hblurs
      rw [isTrue_iff hq hd hf, isTrue_iff hq hd hg]
      rcases hblurs with heq | ⟨hx, hy⟩
      · rw [heq]
      · rw [hx, hy]
        exact ⟨fun h => (by cases h), fun h => (by cases h)⟩

namespace Club

/-- Active, and of none of no ages. -/
theorem ageless_selects : ∃ f g,
    compile .sqlServer member.type (.binary .and (.field "active") (.among (.field "age") [])) =
      .ok f ∧ f.text = "(([active] = @0) AND ([age] IN (null)))" ∧
    compile .sqlServer member.type (.binary .and (.field "active") (.constant (.bool false))) =
      .ok g ∧ g.text = "(([active] = @0) AND (@1 = 1))" ∧
    ∀ m row, f.IsTrue m .sqlServer row ↔ g.IsTrue m .sqlServer row := by
  have hlegible : Dialect.sqlServer.Legible := Dialect.legible_of_brackets rfl rfl
  have hage : member.type.declares "age" := rfl
  obtain ⟨-, h⟩ := empty_membership hlegible member_legible hage
    (.andRight (.field "active") .hole)
  rcases h with ⟨err, h, -⟩ | ⟨f, hf, hbool⟩
  · cases h
  · obtain ⟨g, hg, hselect⟩ := hbool false
    refine ⟨f, g, hf, ?_, hg, ?_, hselect rfl⟩
    · cases hf; rfl
    · cases hg; rfl

/-- Not of one of no ages: no row is selected, where the negation of false selects every one. -/
theorem unaged_unselected : ∃ f g,
    compile .sqlServer member.type (.unary .not (.among (.field "age") [])) = .ok f ∧
    compile .sqlServer member.type (.unary .not (.constant (.bool false))) = .ok g ∧
    ∀ m row, ¬ f.IsTrue m .sqlServer row ∧ g.IsTrue m .sqlServer row := by
  have hlegible : Dialect.sqlServer.Legible := Dialect.legible_of_brackets rfl rfl
  obtain ⟨f, hf⟩ : ∃ f, compile .sqlServer member.type
      (.unary .not (.among (.field "age") [])) = .ok f := ⟨_, rfl⟩
  obtain ⟨g, hg⟩ : ∃ g, compile .sqlServer member.type
      (.unary .not (.constant (.bool false))) = .ok g := ⟨_, rfl⟩
  refine ⟨f, g, hf, hg, fun m row => ?_⟩
  rw [isTrue_iff hlegible member_legible hf, isTrue_iff hlegible member_legible hg, truth?_not,
    truth?_not, truth?_among_nil, truth?_constant]
  exact ⟨fun h => (by cases h), rfl⟩

end Club

end EntityStore
