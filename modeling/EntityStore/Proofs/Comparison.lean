import EntityStore.Proofs.Engine
import EntityStore.Proofs.Membership
import EntityStore.Proofs.Rounding
import EntityStore.UnitOfWork.Basic

/-!
Chains of comparisons. What equals a value equals what that value equals, and what is less than it
is less than all that is not less than it: among values of one kind, and across integers and floats
wherever no two integers of the chain have one nearest double. Two integers that have are both equal
to that double and yet told apart.

Values of two kinds compare only if one is a float, and then both are numbers and have a place among
the doubles. Places are in order, so a chain can only fail where two integers of it, which are
compared as integers, stand at one place.
-/

namespace EntityStore

lemma Binary64.compare?_eq (x y : Float) :
    compare? x y = (place? x).bind fun p => (place? y).map (compare p) := by
  unfold compare?
  rcases place? x with _ | p <;> rcases place? y with _ | q <;> rfl

namespace Value

variable {a b c v w : Value} {o : Ordering} {p q r : Int} {T : EntityType} {e : Entity} {x : Expr}

/-! ### Values of one kind -/

/-- In an order equality and being less are handed on. -/
lemma handed_on {α : Type} [Ord α] [Std.TransOrd α] (x y z : α) :
    (some (compare x y) = some .eq → some (compare y z) = some .eq →
      some (compare x z) = some .eq) ∧
    (some (compare x y) = some .lt →
      some (compare y z) = some .lt ∨ some (compare y z) = some .eq →
      some (compare x z) = some .lt) := by
  simp only [Option.some.injEq]
  refine ⟨fun hxy hyz => Std.TransCmp.eq_trans hxy hyz, fun hxy hyz => ?_⟩
  rcases hyz with hyz | hyz
  · exact Std.TransCmp.lt_trans hxy hyz
  · exact Std.TransCmp.lt_of_lt_of_eq hxy hyz

/-- Values other than floats compare with those of their kind only. -/
lemma kind_eq_of_compare? (hv : v.kind ≠ .float) (hw : w.kind ≠ .float)
    (h : v.compare? w = some o) : v.kind = w.kind := by
  cases v <;> cases w <;> first | rfl | cases h | exact absurd rfl hv | exact absurd rfl hw

lemma handed_on_of_kind (ha : a.kind ≠ .float) (hab : a.kind = b.kind) (hbc : b.kind = c.kind) :
    (a.compare? b = some .eq → b.compare? c = some .eq → a.compare? c = some .eq) ∧
    (a.compare? b = some .lt → b.compare? c = some .lt ∨ b.compare? c = some .eq →
      a.compare? c = some .lt) := by
  cases a <;> cases b <;> cases hab <;> cases c <;> cases hbc
  · exact ⟨fun _ _ => rfl, fun h => by cases h⟩
  · exact handed_on _ _ _
  · exact handed_on _ _ _
  · exact absurd rfl ha
  · exact handed_on _ _ _
  · exact handed_on (α := List Int) _ _ _

/-! ### Places of numbers -/

/-- The place of a number among the doubles. -/
def place? : Value → Option Int
  | int i => some (Binary64.placeOfInt i.toInt)
  | float x => Binary64.place? x
  | _ => none

/-- Beside a float, values are compared by their places. -/
lemma compare?_of_float (h : v.kind = .float ∨ w.kind = .float) :
    v.compare? w = v.place?.bind fun p => w.place?.map (compare p) := by
  cases v with
  | float x =>
    cases w with
    | float y => exact Binary64.compare?_eq x y
    | _ => rcases hx : Binary64.place? x with _ | p <;> simp [compare?, place?, hx]
  | int i =>
    cases w with
    | float y => rfl
    | _ => rcases h with h | h <;> cases h
  | _ =>
    cases w with
    | float y => rfl
    | _ => rcases h with h | h <;> cases h

/-- A value with a place that is no float is an integer. -/
lemma exists_int_of_place? (hv : v.place? = some p) (hf : v.kind ≠ .float) : ∃ i, v = int i := by
  cases v with
  | int i => exact ⟨i, rfl⟩
  | float x => exact absurd rfl hf
  | _ => cases hv

/-- Integers are compared by what they are. -/
lemma compare?_int (i j : Int64) : (int i).compare? (int j) = some (compare i.toInt j.toInt) :=
  congrArg some (Sql.compare_eq_compare_toInt i j)

/-- What compares with a float has a place. -/
lemma exists_places_of_float (hf : v.kind = .float ∨ w.kind = .float) (h : v.compare? w = some o) :
    ∃ p q, v.place? = some p ∧ w.place? = some q := by
  rw [compare?_of_float hf] at h
  obtain ⟨p, hp, h⟩ := Option.bind_eq_some_iff.mp h
  obtain ⟨q, hq, -⟩ := Option.map_eq_some_iff.mp h
  exact ⟨p, q, hp, hq⟩

/-- Of values that compare, both have a place or none. -/
lemma isSome_place?_eq (h : v.compare? w = some o) : v.place?.isSome = w.place?.isSome := by
  by_cases hf : v.kind = .float ∨ w.kind = .float
  · obtain ⟨p, q, hp, hq⟩ := exists_places_of_float hf h
    rw [hp, hq]
    rfl
  · rw [not_or] at hf
    have hkind := kind_eq_of_compare? hf.1 hf.2 h
    cases v with
    | float x => exact absurd rfl hf.1
    | int i =>
      cases w with
      | int j => simp only [place?, Option.isSome_some]
      | _ => cases hkind
    | _ =>
      cases w with
      | float y => exact absurd rfl hf.2
      | int j => cases hkind
      | _ => rfl

/-- In a chain with a float everything has a place. -/
lemma exists_places {o' : Ordering} (hab : a.compare? b = some o) (hbc : b.compare? c = some o')
    (hf : a.kind = .float ∨ b.kind = .float ∨ c.kind = .float) :
    ∃ p q r, a.place? = some p ∧ b.place? = some q ∧ c.place? = some r := by
  have hb : ∃ q, b.place? = some q := by
    rcases hf with hf | hf | hf
    · obtain ⟨p, q, -, hq⟩ := exists_places_of_float (.inl hf) hab
      exact ⟨q, hq⟩
    · obtain ⟨q, r, hq, -⟩ := exists_places_of_float (.inl hf) hbc
      exact ⟨q, hq⟩
    · obtain ⟨q, r, hq, -⟩ := exists_places_of_float (.inr hf) hbc
      exact ⟨q, hq⟩
  obtain ⟨q, hq⟩ := hb
  have ha := isSome_place?_eq hab
  have hc := isSome_place?_eq hbc
  rw [hq] at ha hc
  obtain ⟨p, hp⟩ := Option.isSome_iff_exists.mp ha
  obtain ⟨r, hr⟩ := Option.isSome_iff_exists.mp hc.symm
  exact ⟨p, q, r, hp, hq, hr⟩

lemma compare?_of_place? (hf : v.kind = .float ∨ w.kind = .float) (hp : v.place? = some p)
    (hq : w.place? = some q) : v.compare? w = some (compare p q) := by
  rw [compare?_of_float hf, hp, hq]
  rfl

/-- Places are ordered as their numbers are, but may be the same where the numbers are not. -/
lemma place?_of_compare? (hp : v.place? = some p) (hq : w.place? = some q)
    (h : v.compare? w = some o) : (o = .eq → p = q) ∧ (o = .lt → p ≤ q) := by
  by_cases hf : v.kind = .float ∨ w.kind = .float
  · rw [compare?_of_place? hf hp hq, Option.some.injEq] at h
    subst h
    rw [Int.compare_eq_eq, Int.compare_eq_lt]
    exact ⟨id, le_of_lt⟩
  · rw [not_or] at hf
    obtain ⟨i, rfl⟩ := exists_int_of_place? hp hf.1
    obtain ⟨j, rfl⟩ := exists_int_of_place? hq hf.2
    rw [compare?_int, Option.some.injEq] at h
    subst h
    cases hp
    cases hq
    rw [Int.compare_eq_eq, Int.compare_eq_lt]
    exact ⟨fun h => h ▸ rfl, fun h => Binary64.placeOfInt_mono h.le⟩

/-- Beside a float the lesser value is at the lesser place. -/
lemma place?_lt (hf : v.kind = .float ∨ w.kind = .float) (hp : v.place? = some p)
    (hq : w.place? = some q) (h : v.compare? w = some .lt) : p < q := by
  rw [compare?_of_place? hf hp hq, Option.some.injEq] at h
  exact Int.compare_eq_lt.mp h

/-- What is at the lesser place is less, beside a float or not. -/
lemma compare?_of_place?_lt (hp : v.place? = some p) (hq : w.place? = some q) (hlt : p < q) :
    v.compare? w = some .lt := by
  by_cases hf : v.kind = .float ∨ w.kind = .float
  · rw [compare?_of_place? hf hp hq, Int.compare_eq_lt.mpr hlt]
  · rw [not_or] at hf
    obtain ⟨i, rfl⟩ := exists_int_of_place? hp hf.1
    obtain ⟨j, rfl⟩ := exists_int_of_place? hq hf.2
    rw [compare?_int, Option.some.injEq, Int.compare_eq_lt]
    cases hp
    cases hq
    by_contra hle
    exact absurd (Binary64.placeOfInt_mono (not_lt.mp hle)) (not_le.mpr hlt)

/-! ### Chains -/

/-- Two different integers with one nearest double. -/
def Merges (v w : Value) : Prop :=
  ∃ i j : Int64, v = int i ∧ w = int j ∧ i ≠ j ∧ v.place? = w.place?

/-- Integers that merge are far from zero. -/
lemma Merges.large {i j : Int64} (h : (int i).Merges (int j)) :
    2 ^ 53 ≤ i.toInt.natAbs ∧ 2 ^ 53 ≤ j.toInt.natAbs := by
  obtain ⟨i', j', hi, hj, hne, hplace⟩ := h
  cases hi
  cases hj
  have hplace : Binary64.placeOfInt i.toInt = Binary64.placeOfInt j.toInt := Option.some.inj hplace
  have hne : i.toInt ≠ j.toInt := fun h => hne (Int64.toInt_inj.mp h)
  by_contra hsmall
  have hsmall : i.toInt.natAbs < 2 ^ 53 ∨ j.toInt.natAbs < 2 ^ 53 := by omega
  rcases lt_or_gt_of_ne hne with hlt | hlt
  · exact (Binary64.placeOfInt_lt hlt hsmall).ne hplace
  · exact (Binary64.placeOfInt_lt hlt hsmall.symm).ne hplace.symm

/-- Integers that merge are told apart. -/
lemma Merges.compare?_ne (h : v.Merges w) : v.compare? w ≠ some .eq := by
  obtain ⟨i, j, rfl, rfl, hne, -⟩ := h
  rw [compare?_int, ne_eq, Option.some.injEq, Int.compare_eq_eq, Int64.toInt_inj]
  exact hne

lemma Merges.kind_ne (h : v.Merges w) : v.kind ≠ .float ∧ w.kind ≠ .float := by
  obtain ⟨i, j, rfl, rfl, -, -⟩ := h
  exact ⟨nofun, nofun⟩

/-- What is at one place is equal, or it is two integers that merge. -/
lemma equal_or_merges (hp : v.place? = some p) (hq : w.place? = some p) :
    v.compare? w = some .eq ∨ v.Merges w := by
  by_cases hf : v.kind = .float ∨ w.kind = .float
  · left
    rw [compare?_of_place? hf hp hq, Int.compare_eq_eq.mpr rfl]
  · rw [not_or] at hf
    obtain ⟨i, rfl⟩ := exists_int_of_place? hp hf.1
    obtain ⟨j, rfl⟩ := exists_int_of_place? hq hf.2
    by_cases hij : i = j
    · left
      rw [compare?_int, hij, Int.compare_eq_eq.mpr rfl]
    · exact .inr ⟨i, j, rfl, rfl, hij, hp.trans hq.symm⟩

/-- Equality is handed on, but from an integer to another one over the double of both. -/
lemma compare?_eq_trans (hab : a.compare? b = some .eq) (hbc : b.compare? c = some .eq) :
    a.compare? c = some .eq ∨ a.Merges c ∧ b.kind = .float := by
  by_cases hf : a.kind = .float ∨ b.kind = .float ∨ c.kind = .float
  · obtain ⟨p, q, r, hp, hq, hr⟩ := exists_places hab hbc hf
    obtain rfl := (place?_of_compare? hp hq hab).1 rfl
    obtain rfl := (place?_of_compare? hq hr hbc).1 rfl
    refine (equal_or_merges hp hr).imp_right fun hmerges => ⟨hmerges, ?_⟩
    obtain ⟨ha, hc⟩ := hmerges.kind_ne
    exact (hf.resolve_left ha).resolve_right hc
  · simp only [not_or] at hf
    obtain ⟨ha, hb, hc⟩ := hf
    have habk := kind_eq_of_compare? ha hb hab
    have hbck := kind_eq_of_compare? hb hc hbc
    exact .inl ((handed_on_of_kind ha habk hbck).1 hab hbc)

/-- Less is handed on, but from an integer over another one to the double of both. -/
lemma compare?_lt_trans (hab : a.compare? b = some .lt)
    (hbc : b.compare? c = some .lt ∨ b.compare? c = some .eq) :
    a.compare? c = some .lt ∨ a.Merges b ∧ c.kind = .float ∧ b.compare? c = some .eq ∧
      a.compare? c = some .eq := by
  obtain ⟨o, ho⟩ : ∃ o, b.compare? c = some o := by
    rcases hbc with h | h <;> exact ⟨_, h⟩
  by_cases hf : a.kind = .float ∨ b.kind = .float ∨ c.kind = .float
  · obtain ⟨p, q, r, hp, hq, hr⟩ := exists_places hab ho hf
    have hpq : p ≤ q := (place?_of_compare? hp hq hab).2 rfl
    have hqr : q ≤ r := by
      rcases hbc with h | h
      · exact (place?_of_compare? hq hr h).2 rfl
      · exact ((place?_of_compare? hq hr h).1 rfl).le
    rcases (hpq.trans hqr).lt_or_eq with hlt | rfl
    · exact .inl (compare?_of_place?_lt hp hr hlt)
    · -- All are at one place, so what is less and what it is less than are integers.
      obtain rfl : p = q := le_antisymm hpq hqr
      have hnone : ¬ (a.kind = .float ∨ b.kind = .float) := fun h => (place?_lt h hp hq hab).false
      rw [not_or] at hnone
      have hc : c.kind = .float := (hf.resolve_left hnone.1).resolve_left hnone.2
      have hmerges : a.Merges b := by
        refine (equal_or_merges hp hq).resolve_left fun hequal => ?_
        rw [hab] at hequal
        cases hequal
      have hequal : compare p p = .eq := Int.compare_eq_eq.mpr rfl
      refine .inr ⟨hmerges, hc, ?_, ?_⟩
      · rw [compare?_of_place? (.inr hc) hq hr, hequal]
      · rw [compare?_of_place? (.inr hc) hp hr, hequal]
  · simp only [not_or] at hf
    obtain ⟨ha, hb, hc⟩ := hf
    have habk := kind_eq_of_compare? ha hb hab
    have hbck := kind_eq_of_compare? hb hc ho
    exact .inl ((handed_on_of_kind ha habk hbck).2 hab hbc)

/-! ### Filters that compare -/

/-- Values are equal where they compare as equal, nulls included. -/
lemma equals_eq_ok_true : v.equals w = .ok true ↔ v.compare? w = some .eq := by
  constructor
  · intro h
    simpa using compare?_of_equals h
  · intro h
    cases v with
    | null =>
      cases w with
      | null => rfl
      | _ => cases h
    | _ =>
      cases w with
      | null => cases h
      | _ => exact equals_of_compare? rfl rfl h

/-- An equality holds of the entities whose value compares as equal. -/
lemma satisfied_equality_iff : (Expr.binary .eq x (.constant w)).satisfied T e = .ok true ↔
    ∃ v, x.eval T e = .ok v ∧ v.compare? w = some .eq := by
  rw [Expr.satisfied_equality, except_bind_eq_ok]
  simp only [equals_eq_ok_true]

/-- Membership holds of the entities whose value compares as equal with one of the list. -/
lemma satisfied_among_iff {ws : List Value} : (Expr.among x ws).satisfied T e = .ok true ↔
    ∃ v, x.eval T e = .ok v ∧ ∃ w ∈ ws, v.compare? w = some .eq := by
  rw [Expr.satisfied_among]
  rcases x.eval T e with err | v <;> simp [Except.map, isAmong]

/-- **Chains of comparisons.** Equality is handed on, but from an integer to another one over the
double that is nearest to both; and so is less, but from an integer over another one to such a
double, which both are equal to. Integers that merge so are far from zero. Equalities, memberships
and joins all go by this comparison, and hold just where it finds values equal. -/
theorem compare?_chain (a b c : Value) :
    (a.compare? b = some .eq → b.compare? c = some .eq →
      a.compare? c = some .eq ∧ ¬ a.Merges c ∨
        a.compare? c ≠ some .eq ∧ a.Merges c ∧ b.kind = .float) ∧
    (a.compare? b = some .lt → b.compare? c = some .lt ∨ b.compare? c = some .eq →
      a.compare? c = some .lt ∨
        a.compare? c = some .eq ∧ a.Merges b ∧ c.kind = .float ∧ b.compare? c = some .eq) ∧
    (∀ i j : Int64, (int i).Merges (int j) →
      2 ^ 53 ≤ i.toInt.natAbs ∧ 2 ^ 53 ≤ j.toInt.natAbs) ∧
    ∀ (T : EntityType) (e : Entity),
      (∀ x w, (Expr.binary .eq x (.constant w)).satisfied T e = .ok true ↔
        ∃ v, x.eval T e = .ok v ∧ v.compare? w = some .eq) ∧
      (∀ x ws, (Expr.among x ws).satisfied T e = .ok true ↔
        ∃ v, x.eval T e = .ok v ∧ ∃ w ∈ ws, v.compare? w = some .eq) ∧
      ∀ (j : Join) (w : Value), (j.predicate w).satisfied T e = .ok true ↔
        ∃ v, T.read e j.childField = .ok v ∧ v.compare? w = some .eq := by
  refine ⟨fun hab hbc => ?_, fun hab hbc => ?_, fun i j => Merges.large, fun T e =>
    ⟨fun x w => satisfied_equality_iff, fun x ws => satisfied_among_iff, fun j w => ?_⟩⟩
  · rcases compare?_eq_trans hab hbc with hac | ⟨hmerges, hb⟩
    · exact .inl ⟨hac, fun hmerges => hmerges.compare?_ne hac⟩
    · exact .inr ⟨hmerges.compare?_ne, hmerges, hb⟩
  · exact (compare?_lt_trans hab hbc).imp_right fun ⟨hmerges, hc, hbc, hac⟩ =>
      ⟨hac, hmerges, hc, hbc⟩
  · rw [Join.predicate, satisfied_equality_iff, Expr.eval]

end Value

namespace Strait

/-- A float that is an integer, and the nearest double of the next integer too. -/
def rock : Value := .float 9007199254740992

def near : Value := .int 9007199254740992

def far : Value := .int 9007199254740993

/-- Over the rock both sides are one. -/
theorem near_merges_far : near.compare? rock = some .eq ∧ rock.compare? far = some .eq ∧
    near.Merges far := by
  have hnear : near.compare? rock = some .eq := rfl
  have hfar : rock.compare? far = some .eq := rfl
  refine ⟨hnear, hfar, ?_⟩
  rcases (Value.compare?_chain near rock far).1 hnear hfar with ⟨hequal, -⟩ | ⟨-, hmerges, -⟩
  · exact absurd hequal (by decide)
  · exact hmerges

/-- Both integers are equal to the float, and one is less than the other. -/
theorem near_rock_far : near.compare? rock = some .eq ∧ rock.compare? far = some .eq ∧
    near.compare? far = some .lt ∧ far.compare? rock = some .eq :=
  ⟨rfl, rfl, rfl, rfl⟩

end Strait

end EntityStore
