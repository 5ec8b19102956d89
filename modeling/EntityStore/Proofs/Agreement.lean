import EntityStore.Proofs.Engine
import EntityStore.Proofs.Skeleton
import EntityStore.Proofs.Typing

/-!
A predicate decided in memory and the same predicate decided by a database. Where no value is null
and operands are of one kind, the text that is compiled is true of the row of an entity exactly when
the entity satisfies the predicate.
-/

namespace EntityStore

open Sql

/-! ### Predicates of one kind -/

def BinaryOp.IsComparison (op : BinaryOp) : Prop :=
  op = .eq ∨ op = .ne ∨ op = .gt ∨ op = .ge ∨ op = .lt ∨ op = .le

/-- The kind of the values of a field, if it is one that compares alike in memory and in a
database and the field takes no null. -/
def FieldKind.plain? : FieldKind → Option Kind
  | bool => some .bool
  | int32 | int64 | uint32 | enumeration _ => some .integer
  | text => some .text
  | float | dateTime | date | optional _ => none

/-- A predicate without nulls over the fields of a declaration, with the kind of its values:
comparisons have operands of one kind, connectives those that are bools. -/
inductive Expr.Typed (d : Declaration) : Expr → Kind → Prop
  | constant {v : Value} (hk : Plain v.kind) : Typed d (.constant v) v.kind
  | member {record : Captured} {name : String} {v : Value} (hm : record.member? name = some v)
    (hk : Plain v.kind) : Typed d (.member record name) v.kind
  | field {name : String} {f : FieldKind} {k : Kind} (hf : d.fields.lookup name = some f)
    (hk : f.plain? = some k) : Typed d (.field name) k
  | comparison {op : BinaryOp} {l r : Expr} {k : Kind} (hop : op.IsComparison) (hl : Typed d l k)
    (hr : Typed d r k) : Typed d (.binary op l r) .bool
  | and {l r : Expr} (hl : Typed d l .bool) (hr : Typed d r .bool) :
    Typed d (.binary .and l r) .bool
  | or {l r : Expr} (hl : Typed d l .bool) (hr : Typed d r .bool) :
    Typed d (.binary .or l r) .bool
  | not {x : Expr} (hx : Typed d x .bool) : Typed d (.unary .not x) .bool
  | among {x : Expr} {k : Kind} {values : List Value} (hx : Typed d x k) (hne : values ≠ [])
    (hvs : ∀ v ∈ values, v.kind = k) : Typed d (.among x values) .bool

variable {d : Declaration}

lemma FieldKind.kind_of_shows {f : FieldKind} {k : Kind} {v : Value} (hf : f.plain? = some k)
    (hv : f.Shows v) : v.kind = k ∧ Plain k := by
  obtain ⟨c, rfl⟩ := hv
  cases f <;> cases hf
  · exact ⟨rfl, .inl rfl⟩
  · exact ⟨rfl, .inr (.inl rfl)⟩
  · exact ⟨rfl, .inr (.inl rfl)⟩
  · exact ⟨rfl, .inr (.inl rfl)⟩
  · exact ⟨rfl, .inr (.inr rfl)⟩
  · exact ⟨rfl, .inr (.inl rfl)⟩

lemma Expr.Typed.plain {x : Expr} {k : Kind} (hx : Typed d x k) : Plain k := by
  cases hx with
  | constant hk => exact hk
  | member hm hk => exact hk
  | field hf hk => exact (FieldKind.kind_of_shows hk (FieldKind.shows_initial _)).2
  | _ => exact .inl rfl

lemma Declaration.field?_type (name : String) :
    d.type.field? name = (d.fields.lookup name).map fun f => ⟨name, f.type⟩ := by
  unfold EntityType.field? Declaration.type
  dsimp only
  induction d.fields with
  | nil => rfl
  | cons p fields ih =>
    obtain ⟨key, f⟩ := p
    by_cases hk : name = key
    · subst hk
      simp
    · have hb : (name == key) = false := by simpa using hk
      rw [List.map_cons, List.find?_cons_of_neg (by simpa using Ne.symm hk), ih, List.lookup_cons,
        hb]

/-! ### Comparisons -/

lemma Value.equals_of_compare? {v w : Value} {o : Ordering} (hv : v.isNull = false)
    (hw : w.isNull = false) (h : v.compare? w = some o) : v.equals w = .ok (o == .eq) := by
  unfold Value.equals
  split
  · cases hv
  · cases hv
  · cases hw
  · rw [h]

lemma Sql.Plain.isNull_eq {k : Kind} (hk : Plain k) {v : Value} (hv : v.kind = k) :
    v.isNull = false := by
  cases v with
  | null => rcases hk with rfl | rfl | rfl <;> cases hv
  | _ => rfl

/-- A comparison holds of the order of its operands as the operator written for it does. -/
lemma BinaryOp.IsComparison.holds {op : BinaryOp} (hop : op.IsComparison) {v w : Value}
    {o : Ordering} (hv : v.isNull = false) (hw : w.isNull = false) (ho : v.compare? w = some o) :
    ∃ i holds, infixOf op = .ok i ∧ i.holds? = some holds ∧
      Value.binary op v w = .ok (.bool (holds o)) := by
  rcases hop with rfl | rfl | rfl | rfl | rfl | rfl
  · refine ⟨.eq, _, rfl, rfl, ?_⟩
    rw [Value.binary, Value.equals_of_compare? hv hw ho]
    rfl
  · refine ⟨.ne, _, rfl, rfl, ?_⟩
    rw [Value.binary, Value.equals_of_compare? hv hw ho]
    rfl
  · exact ⟨.gt, _, rfl, rfl, by simp [Value.binary, hv, hw, ho, Value.ordered]⟩
  · exact ⟨.ge, _, rfl, rfl, by simp [Value.binary, hv, hw, ho, Value.ordered]⟩
  · exact ⟨.lt, _, rfl, rfl, by simp [Value.binary, hv, hw, ho, Value.ordered]⟩
  · exact ⟨.le, _, rfl, rfl, by simp [Value.binary, hv, hw, ho, Value.ordered]⟩

/-- A comparison of two values of one kind comes out alike on both sides. -/
lemma comparison_kept {op : BinaryOp} (hop : op.IsComparison) {k : Kind} (hk : Plain k)
    {v w : Value} (hv : v.kind = k) (hw : w.kind = k) :
    ∃ b i, Value.binary op v w = .ok (.bool b) ∧ infixOf op = .ok i ∧
      ∀ m : Engine, m.binary i v.kept w.kept = (Value.bool b).kept := by
  obtain ⟨o, ho, hkept⟩ := compare?_kept hk hv hw
  obtain ⟨i, holds, hi, hholds, hvalue⟩ := hop.holds (hk.isNull_eq hv) (hk.isNull_eq hw) ho
  refine ⟨holds o, i, hvalue, hi, fun m => ?_⟩
  rw [Engine.binary_of_holds hholds, hkept m, Option.map_some, ofTruth_some]

/-- A membership test among values of one kind comes out alike on both sides. -/
lemma isAmong_kept {k : Kind} (hk : Plain k) {v : Value} (hv : v.kind = k) {ws : List Value}
    (hws : ∀ w ∈ ws, w.kind = k) (m : Engine) :
    m.isAmong v.kept (ws.map Value.kept) = some (v.isAmong ws) := by
  have hknown : ((ws.map Value.kept).any fun w => m.compare? v.kept w == none) = false := by
    rw [List.any_eq_false]
    intro w' hw'
    obtain ⟨w, hw, rfl⟩ := List.mem_map.mp hw'
    obtain ⟨o, -, ho⟩ := compare?_kept hk hv (hws w hw)
    simp [ho m]
  have hequal : ((ws.map Value.kept).any fun w => m.compare? v.kept w == some .eq) =
      v.isAmong ws := by
    rw [List.any_map, Value.isAmong, Bool.eq_iff_iff, List.any_eq_true, List.any_eq_true]
    refine exists_congr fun w => and_congr_right fun hw => ?_
    obtain ⟨o, ho, ho'⟩ := compare?_kept hk hv (hws w hw)
    rw [Function.comp_apply, ho, ho' m]
  rw [Engine.isAmong, hknown, hequal]
  cases v.isAmong ws <;> rfl

/-! ### Simulation -/

lemma Expr.eval_comparison {op : BinaryOp} (hop : op.IsComparison) (T : EntityType) (e : Entity)
    (l r : Expr) : (Expr.binary op l r).eval T e = (do
      let v ← l.eval T e
      let w ← r.eval T e
      Value.binary op v w) := by
  rcases hop with rfl | rfl | rfl | rfl | rfl | rfl <;> rfl

namespace Sql.Compiled

/-- On every well-typed entity the tree has a value of the kind, and the condition has that value as
it is kept, once its parameters are bound from number `n` on. -/
def Agrees (d : Declaration) (x : Expr) (k : Kind) (n : Nat) (c : Compiled) : Prop :=
  ∀ e : Entity, d.Fits e.scalars → ∃ v, x.eval d.type e = .ok v ∧ v.kind = k ∧
    ∀ (m : Engine) (param : Nat → Value),
      (∀ i w, c.values[i]? = some w → param (n + i) = w.kept) →
        c.condition.value m (d.type.row e) param = v.kept

variable {q : Dialect} {x l r : Expr} {k : Kind} {truth : Bool} {n : Nat}

lemma ofValue_agrees {v : Value} (hx : ∀ e, x.eval d.type e = .ok v)
    (ht : truth = true → v.kind = .bool) :
    ∃ c, ofValue v truth n = .ok c ∧ c.Agrees d x v.kind n := by
  cases truth with
  | false =>
    refine ⟨_, rfl, fun e _ => ⟨v, hx e, rfl, fun m param hp => ?_⟩⟩
    exact hp 0 v rfl
  | true =>
    obtain ⟨b, rfl⟩ := exists_bool_of_kind (ht rfl)
    refine ⟨_, rfl, fun e _ => ⟨.bool b, hx e, rfl, fun m param hp => ?_⟩⟩
    have hparam : param n = (Value.bool b).kept := hp 0 _ rfl
    rw [Condition.value, Condition.value, Condition.value, hparam]
    cases b <;> rfl

lemma ofField_agrees {name : String} {f : FieldKind} (hf : d.fields.lookup name = some f)
    (hk : f.plain? = some k) (ht : truth = true → k = .bool) :
    ∃ c, ofField q d.type name truth n = .ok c ∧ c.Agrees d (.field name) k n := by
  have hfield : d.type.field? name = some ⟨name, f.type⟩ := by
    rw [Declaration.field?_type, hf]; rfl
  have hvalue : ∀ e : Entity, d.Fits e.scalars → ∃ v, (Expr.field name).eval d.type e = .ok v ∧
      v.kind = k ∧ d.type.row e name = v.kept := by
    intro e he
    obtain ⟨v, hv, hshows⟩ := he.shows name f hf
    have hread : d.type.read? e name = some v := hv
    refine ⟨v, ?_, (FieldKind.kind_of_shows hk hshows).1, ?_⟩
    · rw [Expr.eval, EntityType.read, hread]
    · rw [EntityType.row, hread]; rfl
  cases truth with
  | false =>
    refine ⟨⟨.column name, []⟩, by simp [ofField, hfield], fun e he => ?_⟩
    obtain ⟨v, hv, hkind, hrow⟩ := hvalue e he
    exact ⟨v, hv, hkind, fun m param _ => hrow⟩
  | true =>
    obtain rfl := ht rfl
    have hbool : f.type.scalar = .bool := by
      cases f <;> cases hk; rfl
    refine ⟨⟨.binary .eq (.column name) (.placeholder n), [.bool true]⟩,
      by simp [ofField, hfield, hbool], fun e he => ?_⟩
    obtain ⟨v, hv, hkind, hrow⟩ := hvalue e he
    refine ⟨v, hv, hkind, fun m param hp => ?_⟩
    obtain ⟨b, rfl⟩ := exists_bool_of_kind hkind
    have hparam : param n = (Value.bool true).kept := hp 0 _ rfl
    rw [Condition.value, Condition.value, Condition.value, hrow, hparam]
    cases b <;> rfl

/-- The parameters of two conditions side by side are those of each. -/
lemma params_append {vs ws : List Value} {param : Nat → Value}
    (hp : ∀ i w, (vs ++ ws)[i]? = some w → param (n + i) = w.kept) :
    (∀ i w, vs[i]? = some w → param (n + i) = w.kept) ∧
      ∀ i w, ws[i]? = some w → param (n + vs.length + i) = w.kept := by
  refine ⟨fun i w h => hp i w ?_, fun i w h => ?_⟩
  · rw [List.getElem?_append_left (List.getElem?_eq_some_iff.mp h).1, h]
  · rw [Nat.add_assoc]
    refine hp _ w ?_
    rw [List.getElem?_append_right (Nat.le_add_right _ _), Nat.add_sub_cancel_left, h]

lemma map_range'_of_params {vs : List Value} {param : Nat → Value}
    (hp : ∀ i w, vs[i]? = some w → param (n + i) = w.kept) :
    (List.range' n vs.length).map param = vs.map Value.kept := by
  refine List.ext_getElem (by simp) fun i h _ => ?_
  have hi : i < vs.length := by simpa using h
  have := hp i _ (List.getElem?_eq_getElem hi)
  simpa using this

/-- The tree compiles in the position and from the number on, and agrees with what comes of it. -/
def Compiles (q : Dialect) (d : Declaration) (x : Expr) (k : Kind) (truth : Bool) (n : Nat) :
    Prop :=
  ∃ c, ofExpr q d.type x truth n = .ok c ∧ c.Agrees d x k n

lemma compiles_binary {op : BinaryOp} {i : Infix} (hi : infixOf op = .ok i)
    (hl : Compiles q d l k op.isLogical n) (hr : ∀ n, Compiles q d r k op.isLogical n)
    (heval : ∀ e v w, l.eval d.type e = .ok v → v.kind = k → r.eval d.type e = .ok w → w.kind = k →
      ∃ b, (Expr.binary op l r).eval d.type e = .ok (.bool b) ∧
        ∀ m : Engine, m.binary i v.kept w.kept = (Value.bool b).kept) :
    Compiles q d (.binary op l r) .bool truth n := by
  obtain ⟨cl, hcl, hal⟩ := hl
  obtain ⟨cr, hcr, har⟩ := hr (n + cl.values.length)
  refine ⟨⟨.binary i cl.condition cr.condition, cl.values ++ cr.values⟩, ?_, fun e he => ?_⟩
  · rw [ofExpr, hi, ok_bind, hcl, ok_bind, hcr]
    rfl
  · obtain ⟨v, hv, hvk, hvc⟩ := hal e he
    obtain ⟨w, hw, hwk, hwc⟩ := har e he
    obtain ⟨b, hb, hkept⟩ := heval e v w hv hvk hw hwk
    refine ⟨.bool b, hb, rfl, fun m param hp => ?_⟩
    obtain ⟨hpl, hpr⟩ := params_append hp
    rw [Condition.value, hvc m param hpl, hwc m param hpr, hkept]

lemma compiles_not (hx : Compiles q d x .bool true n) :
    Compiles q d (.unary .not x) .bool truth n := by
  obtain ⟨c, hc, ha⟩ := hx
  have hposition : (UnaryOp.not == UnaryOp.not) = true := rfl
  refine ⟨⟨.signed .not c.condition, c.values⟩, ?_, fun e he => ?_⟩
  · rw [ofExpr, signOf, ok_bind, hposition, hc]
    rfl
  · obtain ⟨v, hv, hvk, hvc⟩ := ha e he
    obtain ⟨b, rfl⟩ := exists_bool_of_kind hvk
    refine ⟨.bool !b, ?_, rfl, fun m param hp => ?_⟩
    · rw [Expr.eval, hv]
      rfl
    · rw [Condition.value, hvc m param hp, truth?_kept, Option.map_some, ofTruth_some]

lemma compiles_among (hk : Plain k) (hx : Compiles q d x k false n) {values : List Value}
    (hne : values ≠ []) (hvs : ∀ v ∈ values, v.kind = k) :
    Compiles q d (.among x values) .bool truth n := by
  obtain ⟨c, hc, ha⟩ := hx
  refine ⟨⟨.among c.condition (List.range' (n + c.values.length) values.length),
    c.values ++ values⟩, ?_, fun e he => ?_⟩
  · rw [ofExpr, hc]
    rfl
  · obtain ⟨v, hv, hvk, hvc⟩ := ha e he
    refine ⟨.bool (v.isAmong values), ?_, rfl, fun m param hp => ?_⟩
    · rw [Expr.eval, hv]
      rfl
    · obtain ⟨hpx, hpv⟩ := params_append hp
      have hids : (List.range' (n + c.values.length) values.length).isEmpty = false := by
        rcases values with _ | ⟨w, ws⟩
        · exact absurd rfl hne
        · rfl
      rw [Condition.value, hvc m param hpx, hids, if_neg (by simp), map_range'_of_params hpv,
        isAmong_kept hk hvk hvs, ofTruth_some]

/-- Every typed tree compiles, in either position. The induction is on the typing; a truth position
is only ever that of a bool. -/
lemma compiles_of_typed (hx : x.Typed d k) :
    ∀ (truth : Bool) (n : Nat), (truth = true → k = .bool) → Compiles q d x k truth n := by
  induction hx with
  | constant hk => exact fun truth n ht => ofValue_agrees (fun _ => rfl) ht
  | @member record name v hm hk =>
    intro truth n ht
    have hmember : record.member name = .ok v := by rw [Captured.member, hm]
    have heval : ∀ e, (Expr.member record name).eval d.type e = .ok v := fun _ => hmember
    obtain ⟨c, hc, hagrees⟩ := ofValue_agrees (n := n) heval ht
    refine ⟨c, ?_, hagrees⟩
    rw [ofExpr, hmember]
    exact hc
  | field hf hk => exact fun truth n ht => ofField_agrees hf hk ht
  | @comparison op l r k hop hl hr ihl ihr =>
    intro truth n _
    have hposition : op.isLogical = true → k = .bool := by
      rcases hop with rfl | rfl | rfl | rfl | rfl | rfl <;> intro h <;> cases h
    obtain ⟨i, hi⟩ : ∃ i, infixOf op = .ok i := by
      rcases hop with rfl | rfl | rfl | rfl | rfl | rfl <;> exact ⟨_, rfl⟩
    refine compiles_binary hi (ihl _ n hposition) (fun n => ihr _ n hposition) ?_
    intro e v w hv hvk hw hwk
    obtain ⟨b, i', hb, hi', hkept⟩ := comparison_kept hop hl.plain hvk hwk
    rw [hi] at hi'
    cases hi'
    exact ⟨b, by rw [Expr.eval_comparison hop, hv, ok_bind, hw, ok_bind, hb], hkept⟩
  | @and l r hl hr ihl ihr =>
    intro truth n _
    refine compiles_binary rfl (ihl _ n fun _ => rfl) (fun n => ihr _ n fun _ => rfl) ?_
    intro e v w hv hvk hw hwk
    obtain ⟨a, rfl⟩ := exists_bool_of_kind hvk
    obtain ⟨b, rfl⟩ := exists_bool_of_kind hwk
    refine ⟨a && b, ?_, fun m => ?_⟩
    · rw [Expr.eval, hv, hw]
      cases a <;> rfl
    · rw [Engine.binary, truth?_kept, truth?_kept]
      cases a <;> cases b <;> rfl
  | @or l r hl hr ihl ihr =>
    intro truth n _
    refine compiles_binary rfl (ihl _ n fun _ => rfl) (fun n => ihr _ n fun _ => rfl) ?_
    intro e v w hv hvk hw hwk
    obtain ⟨a, rfl⟩ := exists_bool_of_kind hvk
    obtain ⟨b, rfl⟩ := exists_bool_of_kind hwk
    refine ⟨a || b, ?_, fun m => ?_⟩
    · rw [Expr.eval, hv, hw]
      cases a <;> rfl
    · rw [Engine.binary, truth?_kept, truth?_kept]
      cases a <;> cases b <;> rfl
  | not hx ih => exact fun truth n _ => compiles_not (ih _ n fun _ => rfl)
  | among hx hne hvs ih =>
    exact fun truth n _ => compiles_among hx.plain (ih _ n fun h => by cases h) hne hvs

end Sql.Compiled

namespace Sql

/-- **The two ways to decide a predicate agree.** A typed predicate compiles, it is decided in
memory for every well-typed entity, and its text is true of the row of the entity to every database
exactly when the entity satisfies it. -/
theorem compile_agrees {q : Dialect} (hq : q.Legible)
    (hd : ∀ f ∈ d.type.fields, q.closing ∉ f.name.toList) {x : Expr} (hx : x.Typed d .bool) :
    ∃ f, compile q d.type x = .ok f ∧
      ∀ e : Entity, d.Fits e.scalars → ∃ b, x.satisfied d.type e = .ok b ∧
        ∀ m : Engine, f.IsTrue m q (d.type.row e) ↔ b = true := by
  obtain ⟨c, hc, hagrees⟩ := Compiled.compiles_of_typed (q := q) hx true 0 fun _ => rfl
  refine ⟨c.fragment q, by rw [compile, hc]; rfl, fun e he => ?_⟩
  obtain ⟨v, hv, hvk, hvalue⟩ := hagrees e he
  obtain ⟨b, rfl⟩ := exists_bool_of_kind hvk
  refine ⟨b, by rw [Expr.satisfied, hv]; rfl, fun m => ?_⟩
  have hread : read q (c.fragment q).text = some c.condition := read_compile hq hd hc
  have hbound : c.condition.value m (d.type.row e) ((c.fragment q).bound q) =
      (Value.bool b).kept := by
    refine hvalue m _ fun i w hw => ?_
    rw [Nat.zero_add]
    exact bound_fragment hw
  constructor
  · rintro ⟨c', hc', htrue⟩
    rw [hread] at hc'
    cases hc'
    rw [hbound, truth?_kept] at htrue
    exact Option.some.inj htrue
  · rintro rfl
    exact ⟨c.condition, hread, by rw [hbound, truth?_kept]⟩

end Sql

namespace Club

/-- Active exactly if called by the name. -/
def activeAnn : Expr :=
  .binary .eq (.binary .eq (.field "name") (.constant (.text "Ann"))) (.field "active")

lemma activeAnn_typed : activeAnn.Typed member .bool :=
  have heq : BinaryOp.eq.IsComparison := .inl rfl
  .comparison heq
    (.comparison heq (.field rfl rfl) (.constant (.inr (.inr rfl))))
    (.field rfl rfl)

/-- An inactive member of another name. -/
def bob : Entity where
  scalars := [("memberId", .int 7), ("active", .bool false), ("age", .int 40),
    ("name", .text "Bob")]
  children := []

lemma bob_fits : member.Fits bob.scalars :=
  Declaration.fits_of_forall₂ (.cons ⟨rfl, (7 : Int32), rfl⟩ (.cons ⟨rfl, false, rfl⟩
    (.cons ⟨rfl, (40 : Int32), rfl⟩ (.cons ⟨rfl, "Bob", rfl⟩ .nil))))

theorem bob_agrees : ∃ f, compile .sqlServer member.type activeAnn = .ok f ∧
    f.text = "(([name] = @0) = [active])" ∧ activeAnn.satisfied member.type bob = .ok true ∧
    ∀ m : Engine, f.IsTrue m .sqlServer (member.type.row bob) := by
  have hlegible : Dialect.sqlServer.Legible := Dialect.legible_of_brackets rfl rfl
  obtain ⟨f, hf, hagrees⟩ := compile_agrees hlegible member_legible activeAnn_typed
  obtain ⟨b, hb, htrue⟩ := hagrees bob bob_fits
  have hsatisfied : activeAnn.satisfied member.type bob = .ok true := by rfl
  rw [hsatisfied] at hb
  cases hb
  refine ⟨f, hf, ?_, hsatisfied, fun m => (htrue m).mpr rfl⟩
  have htext : ∃ g, compile .sqlServer member.type activeAnn = .ok g ∧
      g.text = "(([name] = @0) = [active])" := ⟨_, rfl, rfl⟩
  obtain ⟨g, hg, htext⟩ := htext
  rw [hf] at hg
  cases hg
  exact htext

end Club

end EntityStore
