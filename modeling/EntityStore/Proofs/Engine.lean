import EntityStore.Proofs.Reading
import EntityStore.Sql.Compile

/-!
What a condition means to a database, by the row it is asked for and the values bound to its
placeholders. Truth has a third value, unknown, which every comparison with a null has.

Values of one kind that are neither null nor floating point compare as they do in memory.
-/

namespace EntityStore

open Sql

/-- A value as a database keeps it: a bool is zero or one. -/
def Value.kept : Value → Value
  | bool b => .int (if b then 1 else 0)
  | v => v

def EntityType.row (T : EntityType) (e : Entity) (column : String) : Value :=
  ((T.read? e column).map Value.kept).getD .null

/-! ### What a condition means to a database -/

namespace Sql

/-- What a database does where the meaning of a condition is left open: the order and the truth of
values that are neither integers nor texts, and all operators but comparisons and connectives. -/
structure Engine where
  order : Value → Value → Option Ordering
  truth : Value → Option Bool
  minus : Value → Value
  apply : Infix → Value → Value → Value

/-- The order of texts by code points. -/
def byCodePoint (a b : String) : Ordering :=
  if a.toList.map Char.toNat < b.toList.map Char.toNat then .lt else if a = b then .eq else .gt

/-- The truth values of a database, the third being unknown, as values. -/
def ofTruth : Option Bool → Value
  | some b => .int (if b then 1 else 0)
  | none => .null

/-- Both: false if one is, else unknown if one is. -/
def both : Option Bool → Option Bool → Option Bool
  | some false, _ => some false
  | _, some false => some false
  | some true, some true => some true
  | _, _ => none

/-- Either: true if one is, else unknown if one is. -/
def either : Option Bool → Option Bool → Option Bool
  | some true, _ => some true
  | _, some true => some true
  | some false, some false => some false
  | _, _ => none

/-- Whether a comparison holds of an order; other operators compare nothing. -/
def Infix.holds? : Infix → Option (Ordering → Bool)
  | eq => some (· == .eq)
  | ne => some (· != .eq)
  | gt => some (· == .gt)
  | ge => some (· != .lt)
  | lt => some (· == .lt)
  | le => some (· != .gt)
  | _ => none

namespace Engine

variable (m : Engine)

/-- The order of two values; there is none of a null. -/
def compare? : Value → Value → Option Ordering
  | .null, _ => none
  | _, .null => none
  | .int a, .int b => some (compare a.toInt b.toInt)
  | .text a, .text b => some (byCodePoint a b)
  | v, w => m.order v w

/-- The truth of a value; that of a null is unknown. -/
def truth? : Value → Option Bool
  | .null => none
  | .int i => some (i ≠ 0)
  | v => m.truth v

def binary (op : Infix) (v w : Value) : Value :=
  match op with
  | .and => ofTruth (both (m.truth? v) (m.truth? w))
  | .or => ofTruth (either (m.truth? v) (m.truth? w))
  | op =>
    match op.holds? with
    | some holds => ofTruth ((m.compare? v w).map holds)
    | none => m.apply op v w

/-- Whether a value is one of a list: unknown if it equals none but does not compare with one. -/
def isAmong (v : Value) (ws : List Value) : Option Bool :=
  if ws.any fun w => m.compare? v w == some .eq then some true
  else if ws.any fun w => m.compare? v w == none then none
  else some false

end Engine

/-- The value of a condition by those of its columns and placeholders. A list without placeholders
is written as a null. -/
def Condition.value (m : Engine) (column : String → Value) (param : Nat → Value) : Condition → Value
  | .column name => column name
  | .placeholder id => param id
  | .one => .int 1
  | .signed .not x => ofTruth ((m.truth? (x.value m column param)).map (!·))
  | .signed .minus x => m.minus (x.value m column param)
  | .binary op l r => m.binary op (l.value m column param) (r.value m column param)
  | .among x ids => ofTruth (m.isAmong (x.value m column param)
      (if ids.isEmpty then [.null] else ids.map param))

namespace Fragment

/-- What is bound to a placeholder: the parameter of its name. -/
def bound (d : Dialect) (f : Fragment) (id : Nat) : Value :=
  match f.params.find? (·.name = d.numbered id) with
  | some p => p.value.kept
  | none => .null

/-- The text, read as a condition, is true of a row. -/
def IsTrue (m : Engine) (d : Dialect) (f : Fragment) (row : String → Value) : Prop :=
  ∃ c, read d f.text = some c ∧ m.truth? (c.value m row (f.bound d)) = some true

end Fragment

/-! ### Parameters -/

lemma numbered_injective {d : Dialect} {i j : Nat} (h : d.numbered i = d.numbered j) : i = j := by
  have hdigits : Nat.toDigits 10 i = Nat.toDigits 10 j := by
    have := congrArg String.toList h
    rw [d.toList_numbered, d.toList_numbered] at this
    exact (List.cons.inj this).2
  rw [← Nat.ofDigitChars_ten_toDigits (n := i), hdigits, Nat.ofDigitChars_ten_toDigits]

/-- A placeholder is bound to the value it was numbered for. -/
lemma bound_fragment {d : Dialect} {c : Compiled} {i : Nat} {v : Value}
    (h : c.values[i]? = some v) : (c.fragment d).bound d i = v.kept := by
  have hfind : ∀ (vs : List Value) (k i : Nat), vs[i]? = some v →
      ((vs.zipIdx k).map fun p => (⟨p.2, d.numbered p.2, p.1⟩ : Parameter)).find?
        (·.name = d.numbered (k + i)) = some ⟨k + i, d.numbered (k + i), v⟩ := by
    intro vs
    induction vs with
    | nil => intro k i h; simp at h
    | cons w vs ih =>
      intro k i h
      rw [List.zipIdx_cons, List.map_cons]
      rcases i with _ | i
      · cases h
        simp
      · have hne : d.numbered k ≠ d.numbered (k + (i + 1)) := by
          intro heq
          have := numbered_injective heq
          omega
        have hnext := ih (k + 1) i (by simpa using h)
        rw [List.find?_cons_of_neg (by simpa using hne)]
        have hk : k + 1 + i = k + (i + 1) := by omega
        rw [hk] at hnext
        exact hnext
  have := hfind c.values 0 i h
  rw [Nat.zero_add] at this
  rw [Fragment.bound, Compiled.fragment, this]

/-! ### Values of one kind -/

lemma compare_eq_byCodePoint (a b : String) : compare a b = byCodePoint a b := by
  have hlt : ∀ s t : List Char, s < t ↔ s.map Char.toNat < t.map Char.toNat := by
    intro s
    induction s with
    | nil => intro t; cases t <;> simp
    | cons c s ih =>
      intro t
      cases t with
      | nil => simp
      | cons c' t =>
        simp only [List.map_cons, List.cons_lt_cons_iff, ih, Char.toNat_inj, Char.lt_def,
          UInt32.lt_iff_toNat_lt]
        rfl
  have hcompare : compare a b = if a < b then .lt else if a = b then .eq else .gt := rfl
  rw [hcompare, byCodePoint]
  simp only [String.lt_iff, hlt]

lemma compare_eq_compare_toInt (a b : Int64) : compare a b = compare a.toInt b.toInt := by
  have h64 : compare a b = if a < b then .lt else if a = b then .eq else .gt := rfl
  have hint : compare a.toInt b.toInt =
      if a.toInt < b.toInt then .lt else if a.toInt = b.toInt then .eq else .gt := rfl
  rw [h64, hint]
  simp only [Int64.lt_iff_toInt_lt, Int64.toInt_inj]

/-- The kinds that both sides order alike. -/
def Plain (k : Kind) : Prop := k = .bool ∨ k = .integer ∨ k = .text

variable {m : Engine} {k : Kind} {v w : Value}

/-- Two values of one kind compare in memory, and as they are kept with the same outcome. -/
lemma compare?_kept (hk : Plain k) (hv : v.kind = k) (hw : w.kind = k) :
    ∃ o, v.compare? w = some o ∧ ∀ m : Engine, m.compare? v.kept w.kept = some o := by
  rcases hk with rfl | rfl | rfl
  · cases v <;> cases hv
    cases w <;> cases hw
    rename_i a b
    refine ⟨compare a b, rfl, fun m => ?_⟩
    cases a <;> cases b <;> rfl
  · cases v <;> cases hv
    cases w <;> cases hw
    rename_i a b
    refine ⟨compare a b, rfl, fun m => ?_⟩
    simp [Value.kept, Engine.compare?, compare_eq_compare_toInt]
  · cases v <;> cases hv
    cases w <;> cases hw
    rename_i a b
    refine ⟨compare a b, rfl, fun m => ?_⟩
    simp [Value.kept, Engine.compare?, compare_eq_byCodePoint]

lemma Engine.binary_of_holds {i : Infix} {holds : Ordering → Bool} (h : i.holds? = some holds) :
    m.binary i v w = ofTruth ((m.compare? v w).map holds) := by
  cases i <;> cases h <;> rfl

/-- A truth value as it is kept. -/
@[simp] lemma ofTruth_some (b : Bool) : ofTruth (some b) = (Value.bool b).kept := rfl

@[simp] lemma truth?_kept (b : Bool) : m.truth? (Value.bool b).kept = some b := by
  cases b <;> rfl

lemma exists_bool_of_kind (hv : v.kind = .bool) : ∃ b, v = .bool b := by
  cases v <;> cases hv
  exact ⟨_, rfl⟩

end Sql

end EntityStore
