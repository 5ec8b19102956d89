import EntityStore.Proofs.Reading
import EntityStore.Proofs.Triple
import EntityStore.Sql.Compile

/-!
What the text of a compiled predicate tells of the tree: its skeleton, in which values have become
placeholders and the matches have become one. Nothing else is lost, so trees that read alike have
the same skeleton.
-/

namespace EntityStore

open Sql

/-- What is left of a predicate when its values are taken out. -/
inductive Skeleton where
  | column (name : String)
  | placeholder (id : Nat)
  | one
  | unary (op : UnaryOp) (operand : Skeleton)
  | binary (op : BinaryOp) (left right : Skeleton)
  | like (target pattern : Skeleton)
  | among (target : Skeleton) (ids : List Nat)
deriving DecidableEq, Repr

namespace Expr

/-- The number of placeholders that stand for the values of a tree; `truth` says whether a truth
value is called for. -/
def width : Expr → Bool → Nat
  | constant _, _ => 1
  | member _ _, _ => 1
  | field _, truth => if truth then 1 else 0
  | unary op x, _ => x.width (op == .not)
  | binary op l r, _ => l.width op.isLogical + r.width op.isLogical
  | matching _ x _, _ => x.width false + 1
  | among x values, _ => x.width false + values.length

/-- The skeleton of a tree, with its placeholders numbered from `n` on, left to right. Where a truth
value is called for, a field is compared with a placeholder and a constant with one. -/
def skeleton : Expr → Bool → Nat → Skeleton
  | constant _, truth, n => if truth then .binary .eq (.placeholder n) .one else .placeholder n
  | member _ _, truth, n => if truth then .binary .eq (.placeholder n) .one else .placeholder n
  | field name, truth, n =>
    if truth then .binary .eq (.column name) (.placeholder n) else .column name
  | unary op x, _, n => .unary op (x.skeleton (op == .not) n)
  | binary op l r, _, n =>
    .binary op (l.skeleton op.isLogical n) (r.skeleton op.isLogical (n + l.width op.isLogical))
  | matching _ x _, _, n => .like (x.skeleton false n) (.placeholder (n + x.width false))
  | among x values, _, n =>
    .among (x.skeleton false n) (List.range' (n + x.width false) values.length)

end Expr

namespace Sql

/-- The operator that a sign is written for. -/
def Sign.operator : Sign → UnaryOp
  | not => .not
  | minus => .negate

/-- The operator that a word between operands is written for; matches have none. -/
def Infix.operator? : Infix → Option BinaryOp
  | and => some .and
  | or => some .or
  | eq => some .eq
  | ne => some .ne
  | gt => some .gt
  | ge => some .ge
  | lt => some .lt
  | le => some .le
  | plus => some .add
  | minus => some .sub
  | times => some .mul
  | divide => some .div
  | modulo => some .rem
  | bitAnd => some .bitAnd
  | bitOr => some .bitOr
  | bitXor => some .bitXor
  | like => none

/-- The skeleton that a condition shows. -/
def Condition.skeleton : Condition → Skeleton
  | column name => .column name
  | placeholder id => .placeholder id
  | one => .one
  | signed op x => .unary op.operator x.skeleton
  | binary op l r =>
    match op.operator? with
    | some o => .binary o l.skeleton r.skeleton
    | none => .like l.skeleton r.skeleton
  | among x ids => .among x.skeleton ids

/-- The skeleton of the predicate that a text was compiled from. -/
def decode (d : Dialect) (text : String) : Option Skeleton := (read d text).map Condition.skeleton

lemma operator_of_signOf {op : UnaryOp} {s : Sign} (h : signOf op = .ok s) : s.operator = op := by
  cases op <;> cases h <;> rfl

lemma operator_of_infixOf {op : BinaryOp} {i : Infix} (h : infixOf op = .ok i) :
    i.operator? = some op := by
  cases op <;> cases h <;> rfl

namespace Compiled

/-- The condition shows the skeleton, has as many values as placeholders and no columns but declared
ones. -/
structure Shows (T : EntityType) (c : Compiled) (s : Skeleton) (width : Nat) : Prop where
  skeleton : c.condition.skeleton = s
  width : c.values.length = width
  columns : ∀ name ∈ c.condition.columns, ∃ f ∈ T.fields, f.name = name

variable {d : Dialect} {T : EntityType} {c : Compiled} {truth : Bool} {n : Nat}

lemma shows_ofValue {v : Value} (h : ofValue v truth n = .ok c) :
    c.Shows T (if truth then .binary .eq (.placeholder n) .one else .placeholder n) 1 := by
  unfold ofValue at h
  cases truth with
  | false => cases h; exact ⟨rfl, rfl, by simp [Condition.columns]⟩
  | true =>
    cases v with
    | bool b => cases h; exact ⟨rfl, rfl, by simp [Condition.columns]⟩
    | _ => cases h

lemma shows_ofField {name : String} (h : ofField d T name truth n = .ok c) :
    c.Shows T (if truth then .binary .eq (.column name) (.placeholder n) else .column name)
      (if truth then 1 else 0) := by
  unfold ofField at h
  split at h
  · split at h <;> cases h
  · rename_i f hf
    have hcolumn : ∃ f ∈ T.fields, f.name = name :=
      ⟨f, List.mem_of_find?_eq_some hf, by simpa using List.find?_some hf⟩
    cases truth with
    | false =>
      cases h
      exact ⟨rfl, rfl, by simpa [Condition.columns] using hcolumn⟩
    | true =>
      rw [if_neg (by decide)] at h
      split at h
      · cases h
      · cases h
        exact ⟨rfl, rfl, by simpa [Condition.columns] using hcolumn⟩

/-- What is compiled shows the skeleton of the tree. The induction follows the tree, with the truth
position and the next number handed down as the compiler does. -/
lemma shows_ofExpr {x : Expr} (h : ofExpr d T x truth n = .ok c) :
    c.Shows T (x.skeleton truth n) (x.width truth) := by
  induction x generalizing truth n c with
  | constant v => exact shows_ofValue h
  | field name => exact shows_ofField h
  | member record name =>
    obtain ⟨v, -, h⟩ := except_bind_eq_ok.mp h
    exact shows_ofValue h
  | unary op x ih =>
    obtain ⟨sign, hop, h⟩ := except_bind_eq_ok.mp h
    obtain ⟨cx, hx, h⟩ := except_bind_eq_ok.mp h
    cases h
    have hshows := ih hx
    refine ⟨?_, hshows.width, hshows.columns⟩
    rw [Condition.skeleton, operator_of_signOf hop, hshows.skeleton, Expr.skeleton]
  | binary op l r ihl ihr =>
    obtain ⟨i, hop, h⟩ := except_bind_eq_ok.mp h
    obtain ⟨cl, hl, h⟩ := except_bind_eq_ok.mp h
    obtain ⟨cr, hr, h⟩ := except_bind_eq_ok.mp h
    cases h
    have hshowsl := ihl hl
    have hshowsr := ihr hr
    refine ⟨?_, ?_, fun name hname => ?_⟩
    · simp only [Condition.skeleton, operator_of_infixOf hop, hshowsl.skeleton, hshowsr.skeleton,
        hshowsl.width, Expr.skeleton]
    · rw [List.length_append, hshowsl.width, hshowsr.width, Expr.width]
    · rcases List.mem_append.mp hname with hname | hname
      · exact hshowsl.columns name hname
      · exact hshowsr.columns name hname
  | matching how x p ihx _ =>
    obtain ⟨cx, hx, h⟩ := except_bind_eq_ok.mp h
    obtain ⟨pv, -, h⟩ := except_bind_eq_ok.mp h
    obtain ⟨pp, -, h⟩ := except_bind_eq_ok.mp h
    cases h
    have hshows := ihx hx
    refine ⟨?_, by simp [hshows.width, Expr.width], ?_⟩
    · simp only [Condition.skeleton, Infix.operator?, hshows.skeleton, hshows.width, Expr.skeleton]
    · simpa [Condition.columns] using hshows.columns
  | among x values ih =>
    obtain ⟨cx, hx, h⟩ := except_bind_eq_ok.mp h
    cases h
    have hshows := ih hx
    refine ⟨?_, by simp [hshows.width, Expr.width], hshows.columns⟩
    simp only [Condition.skeleton, hshows.skeleton, hshows.width, Expr.skeleton]

end Compiled

variable {d : Dialect}

/-- The text of a compiled predicate reads as its condition. -/
lemma read_compile (hd : d.Legible) {T : EntityType}
    (hT : ∀ f ∈ T.fields, d.closing ∉ f.name.toList) {x : Expr} {c : Compiled}
    (h : Compiled.ofExpr d T x true 0 = .ok c) :
    read d (c.fragment d).text = some c.condition := by
  refine read_text hd fun name hname => ?_
  obtain ⟨f, hf, rfl⟩ := (Compiled.shows_ofExpr h).columns name hname
  exact hT f hf

/-- **Compiled text is unambiguous.** The text of every tree that compiles is decoded to the
skeleton of the tree, so trees with the same text have the same skeleton. -/
theorem compile_unambiguous (hd : d.Legible) {T : EntityType}
    (hT : ∀ f ∈ T.fields, d.closing ∉ f.name.toList) :
    (∀ x f, compile d T x = .ok f → decode d f.text = some (x.skeleton true 0)) ∧
      ∀ x y f g, compile d T x = .ok f → compile d T y = .ok g → f.text = g.text →
        x.skeleton true 0 = y.skeleton true 0 := by
  have hdecode : ∀ x f, compile d T x = .ok f → decode d f.text = some (x.skeleton true 0) := by
    intro x f h
    unfold compile at h
    rcases hc : Compiled.ofExpr d T x true 0 with e | c
    · rw [hc] at h; cases h
    · rw [hc] at h
      cases h
      rw [decode, read_compile hd hT hc, Option.map_some, (Compiled.shows_ofExpr hc).skeleton]
  refine ⟨hdecode, fun x y f g hf hg htext => ?_⟩
  have hx := hdecode x f hf
  rw [htext, hdecode y g hg] at hx
  exact (Option.some.inj hx).symm

end Sql

namespace Club

def member : Declaration where
  name := "Member"
  fields := [("memberId", .int32), ("active", .bool), ("age", .int32), ("name", .text)]

lemma member_legible : ∀ f ∈ member.type.fields, Dialect.sqlServer.closing ∉ f.name.toList := by
  decide

/-- Not active, and of one of two ages. -/
def retired : Expr :=
  .binary .and (.unary .not (.field "active")) (.among (.field "age") [.int 65, .int 66])

theorem retired_decoded : ∃ f, compile .sqlServer member.type retired = .ok f ∧
    f.text = "((NOT ([active] = @0)) AND ([age] IN (@1,@2)))" ∧
    decode .sqlServer f.text = some (.binary .and
      (.unary .not (.binary .eq (.column "active") (.placeholder 0)))
      (.among (.column "age") [1, 2])) :=
  ⟨_, rfl, rfl,
    (compile_unambiguous (Dialect.legible_of_brackets rfl rfl) member_legible).1 retired _ rfl⟩

end Club

end EntityStore
