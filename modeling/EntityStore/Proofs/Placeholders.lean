import EntityStore.Proofs.Skeleton

/-!
How placeholders and parameters go together. The text of a compiled predicate falls into its
placeholders, in the order of the parameters, and what stands between them: operators, punctuation,
the literals one and null, and quoted columns. The parameters have the values that a walk through
the tree meets from left to right.
-/

namespace EntityStore

open Sql

/-- The value that a match binds for its pattern: a text stands between its wildcards. -/
def Matching.wrap (how : Matching) : Value → Value
  | .text s => .text (how.wildcards.1 ++ s ++ how.wildcards.2)
  | v => v

/-- The values met in a walk through the tree, left to right, each node before what follows it;
`truth` says whether a truth value is called for, where a field stands for a comparison with
true. -/
def Expr.values : Expr → Bool → List Value
  | constant v, _ => [v]
  | member record name, _ => (record.member? name).toList
  | field _, truth => if truth then [.bool true] else []
  | unary op x, _ => x.values (op == .not)
  | binary op l r, _ => l.values op.isLogical ++ r.values op.isLogical
  | matching how x p, _ => x.values false ++ (p.values false).map how.wrap
  | among x values, _ => x.values false ++ values

namespace Sql

/-! ### Pieces of text -/

/-- What a written condition is made of. -/
inductive Lexeme where
  | opening
  | closing
  | comma
  | blank
  | one
  | null
  | among
  | sign (op : Sign)
  | between (op : Infix)
  | column (name : String)
  | placeholder (id : Nat)

namespace Lexeme

def text (d : Dialect) : Lexeme → String
  | opening => "("
  | closing => ")"
  | comma => ","
  | blank => " "
  | one => "1"
  | null => "null"
  | among => "IN"
  | sign op => op.token
  | between op => op.token
  | column name => d.quote name
  | placeholder id => d.numbered id

def id? : Lexeme → Option Nat
  | placeholder id => some id
  | _ => none

/-- The columns among the pieces are declared. -/
def Declared (T : EntityType) : Lexeme → Prop
  | column name => T.declares name
  | _ => True

/-- The pieces one after another. -/
def written (d : Dialect) (ls : List Lexeme) : String := String.join (ls.map (text d))

variable {d : Dialect}

@[simp] lemma written_nil : written d [] = "" := rfl

@[simp] lemma written_cons (l : Lexeme) (ls : List Lexeme) :
    written d (l :: ls) = l.text d ++ written d ls := by
  simp [written, String.join_cons]

@[simp] lemma written_append (ls ls' : List Lexeme) :
    written d (ls ++ ls') = written d ls ++ written d ls' := by
  simp [written]

/-- The pieces of the list of a membership test. -/
def members : List Nat → List Lexeme
  | [] => [null]
  | id :: ids => placeholder id :: ids.flatMap fun id => [comma, placeholder id]

lemma written_members (ids : List Nat) : written d (members ids) = membersText d ids := by
  have hne : ∀ id ids, written d (members (id :: ids)) =
      ",".intercalate ((id :: ids).map d.numbered) := by
    intro id ids
    induction ids generalizing id with
    | nil => simp [members, text]
    | cons id' ids ih =>
      have hsplit : members (id :: id' :: ids) = placeholder id :: comma :: members (id' :: ids) :=
        rfl
      have hjoin : ",".intercalate ((id :: id' :: ids).map d.numbered) =
          d.numbered id ++ "," ++ ",".intercalate ((id' :: ids).map d.numbered) :=
        String.intercalate_cons_cons
      rw [hsplit, written_cons, written_cons, ih, hjoin, String.append_assoc]
      rfl
  cases ids with
  | nil => simp [members, membersText, text]
  | cons id ids => exact hne id ids

lemma ids_members (ids : List Nat) : (members ids).filterMap id? = ids := by
  cases ids with
  | nil => rfl
  | cons id ids =>
    have hids : ∀ ids : List Nat,
        (ids.flatMap fun id => [comma, placeholder id]).filterMap id? = ids := by
      intro ids
      induction ids with
      | nil => rfl
      | cons id ids ih =>
        rw [List.flatMap_cons, List.filterMap_append, ih]
        rfl
    simp only [members, List.filterMap_cons, id?, hids]

lemma declared_members (T : EntityType) (ids : List Nat) : ∀ l ∈ members ids, l.Declared T := by
  cases ids with
  | nil => simp [members, Declared]
  | cons id ids =>
    simp only [members, List.mem_cons, List.mem_flatMap, List.not_mem_nil, or_false]
    rintro l (rfl | ⟨_, -, rfl | rfl⟩) <;> trivial

end Lexeme

/-- Text between placeholders. -/
def Segment (d : Dialect) (T : EntityType) (s : String) : Prop :=
  ∃ ls : List Lexeme, s = Lexeme.written d ls ∧ ∀ l ∈ ls, l.id? = none ∧ l.Declared T

/-- A first segment, then placeholders each followed by a segment. -/
def interleaved (first : String) (rest : List (String × String)) : String :=
  first ++ String.join (rest.map fun p => p.1 ++ p.2)

section Segments

variable {d : Dialect} {T : EntityType}

lemma segment_nil : Segment d T "" := ⟨[], rfl, by simp⟩

lemma Segment.cons {s : String} (hs : Segment d T s) {l : Lexeme} (hid : l.id? = none)
    (hl : l.Declared T) : Segment d T (l.text d ++ s) := by
  obtain ⟨ls, rfl, hls⟩ := hs
  exact ⟨l :: ls, by simp, by simpa using ⟨⟨hid, hl⟩, hls⟩⟩

/-- Pieces fall into their placeholders and segments between them. The induction is on the pieces;
each one either ends the segment before it or goes in front of the first. -/
lemma exists_segments {ls : List Lexeme} (hls : ∀ l ∈ ls, l.Declared T) :
    ∃ first rest, Segment d T first ∧ (∀ p ∈ rest, Segment d T p.2) ∧
      rest.map Prod.fst = (ls.filterMap Lexeme.id?).map d.numbered ∧
      Lexeme.written d ls = interleaved first rest := by
  induction ls with
  | nil => exact ⟨"", [], segment_nil, by simp, rfl, rfl⟩
  | cons l ls ih =>
    obtain ⟨first, rest, hfirst, hrest, hnames, htext⟩ := ih fun x hx => hls x (by simp [hx])
    have hl := hls l (by simp)
    rcases hid : l.id? with _ | id
    · refine ⟨l.text d ++ first, rest, hfirst.cons hid hl, hrest, ?_, ?_⟩
      · rw [List.filterMap_cons_none hid, hnames]
      · rw [Lexeme.written_cons, htext, interleaved, interleaved, String.append_assoc]
    · refine ⟨"", (d.numbered id, first) :: rest, segment_nil, ?_, ?_, ?_⟩
      · simpa using ⟨hfirst, fun a b h => hrest (a, b) h⟩
      · rw [List.filterMap_cons_some hid, List.map_cons, List.map_cons, hnames]
      · have hl : l.text d = d.numbered id := by
          cases l <;> cases hid
          rfl
        rw [Lexeme.written_cons, htext, hl]
        simp [interleaved, String.append_assoc]

end Segments

/-! ### Conditions in pieces -/

namespace Condition

/-- The pieces of a written condition. -/
def lexemes : Condition → List Lexeme
  | column name => [.column name]
  | placeholder id => [.placeholder id]
  | one => [.one]
  | signed op x => .opening :: .sign op :: .blank :: (x.lexemes ++ [.closing])
  | binary op l r =>
    .opening :: (l.lexemes ++ .blank :: .between op :: .blank :: (r.lexemes ++ [.closing]))
  | among x ids =>
    .opening :: (x.lexemes ++ .blank :: .among :: .blank :: .opening ::
      (Lexeme.members ids ++ [.closing, .closing]))

/-- The numbers of the placeholders of a condition, in the order of its text. -/
def ids (c : Condition) : List Nat := c.lexemes.filterMap Lexeme.id?

variable {d : Dialect}

lemma written_lexemes (c : Condition) : Lexeme.written d c.lexemes = c.text d := by
  induction c with
  | column name => simp [lexemes, Lexeme.text, text]
  | placeholder id => simp [lexemes, Lexeme.text, text]
  | one => simp [lexemes, Lexeme.text, text]
  | signed op x ih =>
    simp [lexemes, Lexeme.text, text, ih, String.append_assoc]
  | binary op l r ihl ihr =>
    simp [lexemes, Lexeme.text, text, ihl, ihr, String.append_assoc]
  | among x ids ih =>
    have htext : (among x ids).text d =
        "(" ++ x.text d ++ (" " ++ "IN" ++ " " ++ "(") ++ membersText d ids ++ (")" ++ ")") := rfl
    rw [htext]
    simp only [lexemes, Lexeme.written_cons, Lexeme.written_append, Lexeme.written_nil, ih,
      Lexeme.written_members, Lexeme.text, String.append_assoc, String.append_empty]

lemma declared_lexemes {T : EntityType} {c : Condition} (h : ∀ name ∈ c.columns, T.declares name) :
    ∀ l ∈ c.lexemes, l.Declared T := by
  induction c with
  | column name => simpa [lexemes, Lexeme.Declared, columns] using h
  | placeholder id => simp [lexemes, Lexeme.Declared]
  | one => simp [lexemes, Lexeme.Declared]
  | signed op x ih =>
    simpa [lexemes, Lexeme.Declared, or_imp, forall_and] using ih h
  | binary op l r ihl ihr =>
    have hl := ihl fun name hname => h name (List.mem_append_left _ hname)
    have hr := ihr fun name hname => h name (List.mem_append_right _ hname)
    simpa [lexemes, Lexeme.Declared, or_imp, forall_and] using ⟨hl, hr⟩
  | among x ids ih =>
    simpa [lexemes, Lexeme.Declared, or_imp, forall_and] using
      ⟨ih h, Lexeme.declared_members T ids⟩

lemma ids_signed (op : Sign) (x : Condition) : (signed op x).ids = x.ids := by
  simp [ids, lexemes, Lexeme.id?, List.filterMap_cons]

lemma ids_binary (op : Infix) (l r : Condition) : (binary op l r).ids = l.ids ++ r.ids := by
  simp [ids, lexemes, Lexeme.id?, List.filterMap_cons]

lemma ids_among (x : Condition) (is : List Nat) : (among x is).ids = x.ids ++ is := by
  simp [ids, lexemes, Lexeme.id?, List.filterMap_cons, Lexeme.ids_members]

end Condition

/-! ### What is compiled -/

namespace Compiled

/-- The placeholders are numbered on from `n` in the order of the text, one for each value. -/
structure LinesUp (c : Compiled) (values : List Value) (n : Nat) : Prop where
  ids : c.condition.ids = List.range' n values.length
  values : c.values = values

variable {d : Dialect} {T : EntityType} {c : Compiled} {truth : Bool} {n : Nat}

lemma linesUp_ofValue {v : Value} (h : ofValue v truth n = .ok c) : c.LinesUp [v] n := by
  unfold ofValue at h
  cases truth with
  | false => cases h; exact ⟨rfl, rfl⟩
  | true =>
    cases v with
    | bool b => cases h; exact ⟨rfl, rfl⟩
    | _ => cases h

lemma linesUp_ofField {name : String} (h : ofField d T name truth n = .ok c) :
    c.LinesUp (if truth then [.bool true] else []) n := by
  unfold ofField at h
  split at h
  · split at h <;> cases h
  · cases truth with
    | false => cases h; exact ⟨rfl, rfl⟩
    | true =>
      rw [if_neg (by decide)] at h
      split at h
      · cases h
      · cases h; exact ⟨rfl, rfl⟩

lemma member?_of_member {record : Captured} {name : String} {v : Value}
    (h : record.member name = .ok v) : record.member? name = some v := by
  unfold Captured.member at h
  split at h
  · rename_i hv; cases h; exact hv
  · cases h

/-- The value of a pattern is the only one met in it. -/
lemma values_of_patternValue {how : Matching} {p : Expr} {v : Value}
    (h : patternValue how p = .ok v) : p.values false = [v] := by
  cases p with
  | constant w => cases h; rfl
  | member record name => rw [Expr.values, member?_of_member h]; rfl
  | _ => cases h

lemma wrap_of_patternParameter {how : Matching} {v w : Value}
    (h : patternParameter how v = .ok w) : w = how.wrap v := by
  cases v <;> cases h <;> rfl

/-- Placeholders and values line up in whatever a tree is compiled to. The induction follows the
tree; each part goes on with the number that the parts to its left have come to. -/
lemma linesUp_ofExpr {x : Expr} (h : ofExpr d T x truth n = .ok c) :
    c.LinesUp (x.values truth) n := by
  induction x generalizing truth n c with
  | constant v => exact linesUp_ofValue h
  | field name => exact linesUp_ofField h
  | member record name =>
    obtain ⟨v, hv, h⟩ := except_bind_eq_ok.mp h
    rw [Expr.values, member?_of_member hv]
    exact linesUp_ofValue h
  | unary op x ih =>
    obtain ⟨sign, -, h⟩ := except_bind_eq_ok.mp h
    obtain ⟨cx, hx, h⟩ := except_bind_eq_ok.mp h
    cases h
    obtain ⟨hids, hvalues⟩ := ih hx
    exact ⟨(Condition.ids_signed _ _).trans hids, hvalues⟩
  | binary op l r ihl ihr =>
    obtain ⟨i, -, h⟩ := except_bind_eq_ok.mp h
    obtain ⟨cl, hl, h⟩ := except_bind_eq_ok.mp h
    obtain ⟨cr, hr, h⟩ := except_bind_eq_ok.mp h
    cases h
    obtain ⟨hidsl, hvaluesl⟩ := ihl hl
    obtain ⟨hidsr, hvaluesr⟩ := ihr hr
    refine ⟨?_, by rw [hvaluesl, hvaluesr, Expr.values]⟩
    rw [Condition.ids_binary, hidsl, hidsr, hvaluesl, List.range'_append_1, Expr.values,
      List.length_append]
  | matching how x p ih _ =>
    obtain ⟨cx, hx, h⟩ := except_bind_eq_ok.mp h
    obtain ⟨v, hv, h⟩ := except_bind_eq_ok.mp h
    obtain ⟨w, hw, h⟩ := except_bind_eq_ok.mp h
    cases h
    obtain ⟨hids, hvalues⟩ := ih hx
    have hpattern : (Expr.matching how x p).values truth = x.values false ++ [w] := by
      rw [Expr.values, values_of_patternValue hv, wrap_of_patternParameter hw]
      rfl
    have hplaceholder : (Condition.placeholder (n + cx.values.length)).ids =
        List.range' (n + (x.values false).length) 1 := by
      rw [hvalues]
      rfl
    refine ⟨?_, by rw [hvalues, hpattern]⟩
    rw [Condition.ids_binary, hids, hplaceholder, List.range'_append_1, hpattern,
      List.length_append, List.length_singleton]
  | among x values ih =>
    obtain ⟨cx, hx, h⟩ := except_bind_eq_ok.mp h
    cases h
    obtain ⟨hids, hvalues⟩ := ih hx
    refine ⟨?_, by rw [hvalues, Expr.values]⟩
    rw [Condition.ids_among, hids, hvalues, List.range'_append_1, Expr.values, List.length_append]

lemma declares_columns {x : Expr} (h : ofExpr d T x truth n = .ok c) :
    ∀ name ∈ c.condition.columns, T.declares name := by
  intro name hname
  obtain ⟨f, hf, rfl⟩ := (shows_ofExpr h).columns name hname
  exact List.any_eq_true.mpr ⟨f, hf, by simp⟩

lemma getElem?_params_fragment {i : Nat} {p : Parameter}
    (h : (c.fragment d).params[i]? = some p) : p.id = i ∧ p.name = d.numbered i := by
  have hparam : (c.fragment d).params[i]? =
      (c.values[i]?).map fun v => (⟨i, d.numbered i, v⟩ : Parameter) := by
    simp [fragment, List.getElem?_zipIdx, Function.comp_def]
  rw [hparam] at h
  obtain ⟨v, -, rfl⟩ := Option.map_eq_some_iff.mp h
  exact ⟨rfl, rfl⟩

lemma names_params_fragment (c : Compiled) : (c.fragment d).params.map Parameter.name =
    (List.range' 0 c.values.length).map d.numbered := by
  have hnumbers : c.values.zipIdx.map Prod.snd = List.range' 0 c.values.length := by simp
  rw [← hnumbers, fragment, List.map_map, List.map_map]
  rfl

lemma values_params_fragment (c : Compiled) :
    (c.fragment d).params.map Parameter.value = c.values := by
  have hvalues : c.values.zipIdx.map Prod.fst = c.values := by simp
  rw [fragment, List.map_map]
  exact hvalues

end Compiled

variable {d : Dialect} {T : EntityType}

/-- **Placeholders and parameters line up.** Parameter `i` has the number `i` and is named by the
sign of the dialect and that number; the text falls into the names of the parameters, in their
order, and segments without placeholders; and the parameters have the values that are met in a walk
from left to right. -/
theorem compile_lines_up {x : Expr} {f : Fragment} (h : compile d T x = .ok f) :
    (∀ (i : Nat) (p : Parameter), f.params[i]? = some p →
      p.id = i ∧ p.name = d.sign.toString ++ toString i) ∧
    (∃ first rest, f.text = interleaved first rest ∧ Segment d T first ∧
      (∀ p ∈ rest, Segment d T p.2) ∧ rest.map Prod.fst = f.params.map Parameter.name) ∧
    f.params.map Parameter.value = x.values true := by
  unfold compile at h
  rcases hc : Compiled.ofExpr d T x true 0 with e | c
  · rw [hc] at h; cases h
  · rw [hc] at h
    cases h
    obtain ⟨hids, hvalues⟩ := Compiled.linesUp_ofExpr hc
    refine ⟨fun i p hp => Compiled.getElem?_params_fragment hp, ?_, ?_⟩
    · obtain ⟨first, rest, hfirst, hrest, hnames, htext⟩ :=
        exists_segments (d := d) (Condition.declared_lexemes (Compiled.declares_columns hc))
      refine ⟨first, rest, ?_, hfirst, hrest, ?_⟩
      · rw [← htext, Condition.written_lexemes, Compiled.fragment]
      · rw [hnames, ← Condition.ids, hids, Compiled.names_params_fragment, hvalues]
    · rw [Compiled.values_params_fragment, hvalues]

end Sql

namespace Club

/-- Active, called by a part of the name, and of none of no ages. -/
def sought : Expr :=
  .binary .and (.field "active") (.binary .and (.matching .contains (.field "name")
    (.constant (.text "nn"))) (.unary .not (.among (.field "age") [])))

theorem sought_lines_up : ∃ f, compile .sqlServer member.type sought = .ok f ∧
    f.text = "(([active] = @0) AND (([name] LIKE @1) AND (NOT ([age] IN (null)))))" ∧
    f.params.map Parameter.value = [.bool true, .text "%nn%"] ∧
    ∃ first rest, f.text = interleaved first rest ∧ rest.map Prod.fst = ["@0", "@1"] := by
  obtain ⟨f, hf, htext, hnames⟩ : ∃ f, compile .sqlServer member.type sought = .ok f ∧
      f.text = "(([active] = @0) AND (([name] LIKE @1) AND (NOT ([age] IN (null)))))" ∧
      f.params.map Parameter.name = ["@0", "@1"] := ⟨_, rfl, rfl, rfl⟩
  obtain ⟨-, ⟨first, rest, hsplit, -, -, hrest⟩, hvalues⟩ := compile_lines_up hf
  exact ⟨f, hf, htext, hvalues, first, rest, hsplit, hrest.trans hnames⟩

end Club

end EntityStore
