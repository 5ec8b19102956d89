import EntityStore.Sql.Condition
import Mathlib.Tactic.Lemma

/-!
Reading written conditions. The reader goes from left to right and knows nothing of precedence; it
takes every written condition apart into what was written, as long as the quotes of the dialect can
be told from the rest and no column has the closing one in its name.
-/

namespace EntityStore.Sql

/-! ### The text as characters -/

lemma Dialect.toList_quote (d : Dialect) (name : String) :
    (d.quote name).toList = d.opening :: (name.toList ++ [d.closing]) := by
  simp [quote, Char.toString_eq_singleton]

lemma Dialect.toList_numbered (d : Dialect) (id : Nat) :
    (d.numbered id).toList = d.sign :: Nat.toDigits 10 id := by
  simp [numbered, parameter, Char.toString_eq_singleton]

lemma toList_membersText (d : Dialect) {ids : List Nat} (h : ids ≠ []) :
    (membersText d ids).toList =
      [','].intercalate (ids.map fun id => d.sign :: Nat.toDigits 10 id) := by
  obtain ⟨id, ids, rfl⟩ := List.exists_cons_of_ne_nil h
  rw [membersText, String.toList_intercalate, List.map_map]
  · congr 1
    refine List.map_congr_left fun id _ => ?_
    rw [Function.comp_apply, d.toList_numbered]
  · simp

namespace Condition

variable (d : Dialect)

lemma toList_one : (one.text d).toList = ['1'] := by simp [text]

lemma toList_signed (op : Sign) (x : Condition) :
    ((signed op x).text d).toList =
      '(' :: (op.token.toList ++ ' ' :: ((x.text d).toList ++ [')'])) := by
  simp [text]

lemma toList_binary (op : Infix) (l r : Condition) :
    ((binary op l r).text d).toList =
      '(' :: ((l.text d).toList ++ ' ' ::
        (op.token.toList ++ ' ' :: ((r.text d).toList ++ [')']))) := by
  simp [text]

lemma toList_among (x : Condition) (ids : List Nat) :
    ((among x ids).text d).toList =
      '(' :: ((x.text d).toList ++ ' ' :: 'I' :: 'N' :: ' ' :: '(' ::
        ((membersText d ids).toList ++ [')', ')'])) := by
  simp [text]

end Condition

/-! ### The reader -/

namespace Reading

/-- What stands before a character, and what follows it. -/
def upTo (stop : Char) (cs : List Char) : Option (List Char × List Char) :=
  match cs.dropWhile (· ≠ stop) with
  | [] => none
  | _ :: rest => some (cs.takeWhile (· ≠ stop), rest)

def number (cs : List Char) : Option (Nat × List Char) :=
  if (cs.takeWhile Char.isDigit).isEmpty then none
  else some (Nat.ofDigitChars 10 (cs.takeWhile Char.isDigit) 0, cs.dropWhile Char.isDigit)

/-- The character of a kind, or nothing. -/
def skip (c : Char) : List Char → Option (List Char)
  | c' :: cs => if c' = c then some cs else none
  | [] => none

/-- An operator before its operand. -/
def sign : List Char → Option (Sign × List Char)
  | 'N' :: 'O' :: 'T' :: ' ' :: cs => some (.not, cs)
  | '-' :: ' ' :: cs => some (.minus, cs)
  | _ => none

/-- The operator of a word between two operands. -/
def infixOp (word : List Char) : Option Infix :=
  [Infix.and, .or, .eq, .ne, .gt, .ge, .lt, .le, .plus, .minus, .times, .divide, .modulo, .bitAnd,
    .bitOr, .bitXor, .like].find? (·.token.toList = word)

variable (d : Dialect)

/-- A placeholder and nothing else. -/
def placeholder (cs : List Char) : Option Nat := do
  let cs ← skip d.sign cs
  let (id, rest) ← number cs
  if rest.isEmpty then some id else none

/-- The list of a membership test, between parentheses. -/
def members (cs : List Char) : Option (List Nat × List Char) := do
  let cs ← skip '(' cs
  let (inside, rest) ← upTo ')' cs
  let ids ← if inside = ['n', 'u', 'l', 'l'] then some []
    else (inside.splitOn ',').mapM (placeholder d)
  return (ids, rest)

/-- A column, a placeholder or a one. -/
def atom : List Char → Option (Condition × List Char)
  | [] => none
  | c :: cs =>
    if c = d.opening then do
      let (name, rest) ← upTo d.closing cs
      return (.column (String.ofList name), rest)
    else if c = d.sign then do
      let (id, rest) ← number cs
      return (.placeholder id, rest)
    else if c = '1' then some (.one, cs)
    else none

/-- A condition at the beginning of a text, and the rest of the text. -/
def condition : Nat → List Char → Option (Condition × List Char)
  | 0, _ => none
  | fuel + 1, '(' :: cs =>
    match sign cs with
    | some (op, cs) => do
      let (x, cs) ← condition fuel cs
      return (.signed op x, ← skip ')' cs)
    | none => do
      let (l, cs) ← condition fuel cs
      let (word, cs) ← upTo ' ' (← skip ' ' cs)
      if word = ['I', 'N'] then do
        let (ids, cs) ← members d cs
        return (.among l ids, ← skip ')' cs)
      else do
        let op ← infixOp word
        let (r, cs) ← condition fuel cs
        return (.binary op l r, ← skip ')' cs)
  | _ + 1, cs => atom d cs

end Reading

/-- The condition that a text is the written form of. -/
def read (d : Dialect) (text : String) : Option Condition :=
  match Reading.condition d text.toList.length text.toList with
  | some (c, []) => some c
  | _ => none

/-! ### What was written is read -/

/-- The quotes and the sign of placeholders cannot be taken for anything else in a condition. -/
structure Dialect.Legible (d : Dialect) : Prop where
  opening : d.opening ∉ ['(', '-', 'N', '1']
  sign : d.sign ∉ ['(', '-', 'N', '1', 'n', ',', ')']
  distinct : d.sign ≠ d.opening

lemma Dialect.legible_of_brackets {d : Dialect} (ho : d.opening = '[') (hs : d.sign = '@') :
    d.Legible := by
  refine ⟨?_, ?_, ?_⟩ <;> simp [ho, hs]

/-- The names of the columns in a condition. -/
def Condition.columns : Condition → List String
  | column name => [name]
  | placeholder _ => []
  | one => []
  | signed _ x => x.columns
  | binary _ l r => l.columns ++ r.columns
  | among x _ => x.columns

namespace Reading

variable {d : Dialect} {rest : List Char}

lemma upTo_append {stop : Char} {cs : List Char} (h : stop ∉ cs) :
    upTo stop (cs ++ stop :: rest) = some (cs, rest) := by
  have hcs : ∀ c ∈ cs, decide (c ≠ stop) = true := by
    intro c hc
    have hne : c ≠ stop := fun e => h (e ▸ hc)
    simpa using hne
  rw [upTo, List.dropWhile_append_of_pos hcs, List.takeWhile_append_of_pos hcs]
  simp

@[simp] lemma skip_self (c : Char) : skip c (c :: rest) = some rest := if_pos rfl

/-- What follows does not go on with a digit. -/
def Ends (rest : List Char) : Prop := ∀ c ∈ rest.head?, ¬ c.isDigit

lemma ends_of_not_digit {c : Char} (h : c.isDigit = false) : Ends (c :: rest) := by
  intro c' hc
  cases hc
  simp [h]

lemma number_append (h : Ends rest) (n : Nat) :
    number (Nat.toDigits 10 n ++ rest) = some (n, rest) := by
  have hdigits : ∀ c ∈ Nat.toDigits 10 n, c.isDigit = true :=
    fun c hc => Nat.isDigit_of_mem_toDigits (by decide) (by decide) hc
  have hrest : rest.takeWhile Char.isDigit = [] ∧ rest.dropWhile Char.isDigit = rest := by
    rcases rest with _ | ⟨c, cs⟩
    · exact ⟨rfl, rfl⟩
    · have := h c rfl
      simp [this]
  rw [number, List.takeWhile_append_of_pos hdigits, List.dropWhile_append_of_pos hdigits,
    hrest.1, hrest.2, List.append_nil, Nat.ofDigitChars_toDigits (by decide) (by decide)]
  simp [Nat.toDigits_ne_nil]

lemma sign_token (op : Sign) : sign (op.token.toList ++ ' ' :: rest) = some (op, rest) := by
  cases op <;> rfl

lemma infixOp_token (op : Infix) : infixOp op.token.toList = some op := by
  cases op <;> rfl

lemma placeholder_numbered (id : Nat) :
    placeholder d (d.sign :: Nat.toDigits 10 id) = some id := by
  have hends : Ends [] := by simp [Ends]
  have := number_append hends id
  rw [List.append_nil] at this
  simp [placeholder, this]

lemma mem_intercalate {c : Char} {sep : List Char} {ls : List (List Char)}
    (h : c ∈ sep.intercalate ls) : c ∈ sep ∨ ∃ l ∈ ls, c ∈ l := by
  induction ls with
  | nil => simp at h
  | cons l ls ih =>
    rcases ls with _ | ⟨l', ls⟩
    · exact .inr ⟨l, by simp, by simpa using h⟩
    · rw [List.intercalate_cons_cons, List.append_assoc] at h
      rcases List.mem_append.mp h with h | h
      · exact .inr ⟨l, by simp, h⟩
      · rcases List.mem_append.mp h with h | h
        · exact .inl h
        · rcases ih h with h | ⟨m, hm, hc⟩
          · exact .inl h
          · exact .inr ⟨m, by simp [hm], hc⟩

lemma not_mem_numbered {c : Char} (hs : c ≠ d.sign) (hc : c.isDigit = false) (id : Nat) :
    c ∉ d.sign :: Nat.toDigits 10 id := by
  intro h
  rcases List.mem_cons.mp h with h | h
  · exact hs h
  · have := Nat.isDigit_of_mem_toDigits (by decide) (by decide) h
    rw [hc] at this
    cases this

lemma members_append (hd : d.Legible) (ids : List Nat) :
    members d ('(' :: ((membersText d ids).toList ++ ')' :: rest)) = some (ids, rest) := by
  rcases hids : ids with _ | ⟨id, ids'⟩
  · simp [members, membersText, upTo]
  · rw [← hids]
    have hne : ids ≠ [] := by simp [hids]
    have hsign := hd.sign
    simp only [List.mem_cons, List.not_mem_nil, not_or] at hsign
    have htext := toList_membersText d hne
    have hclose : ')' ∉ (membersText d ids).toList := by
      rw [htext]
      intro h
      rcases mem_intercalate h with h | ⟨l, hl, h⟩
      · simp at h
      · obtain ⟨id, -, rfl⟩ := List.mem_map.mp hl
        exact not_mem_numbered (Ne.symm hsign.2.2.2.2.2.2.1) (by decide) id h
    have hnull : (membersText d ids).toList ≠ ['n', 'u', 'l', 'l'] := by
      rw [htext, hids]
      intro h
      have hhead : d.sign = 'n' := by
        rcases ids' with _ | ⟨id', ids'⟩ <;>
        · simp only [List.map_cons, List.map_nil, List.intercalate_cons_cons,
            List.intercalate_singleton, List.cons_append, List.cons.injEq] at h
          exact h.1
      exact hsign.2.2.2.2.1 hhead
    have hsplit : (membersText d ids).toList.splitOn ',' =
        ids.map fun id => d.sign :: Nat.toDigits 10 id := by
      rw [htext]
      refine List.splitOn_intercalate ',' (fun l hl => ?_) (by simp [hne])
      obtain ⟨id, -, rfl⟩ := List.mem_map.mp hl
      exact not_mem_numbered (Ne.symm hsign.2.2.2.2.2.1) (by decide) id
    have hread :
        (ids.map fun id => d.sign :: Nat.toDigits 10 id).mapM (placeholder d) = some ids := by
      clear hids hne htext hclose hnull hsplit
      induction ids with
      | nil => rfl
      | cons id ids ih => simp [placeholder_numbered, ih]
    simp [members, upTo_append hclose, hnull, hsplit, hread]

lemma condition_of_ne {c : Char} (h : c ≠ '(') (fuel : Nat) (cs : List Char) :
    condition d (fuel + 1) (c :: cs) = atom d (c :: cs) := by
  rw [condition]
  intro cs' heq
  exact h (List.cons.inj heq).1

lemma sign_eq_none {c : Char} (hn : c ≠ 'N') (hm : c ≠ '-') (cs : List Char) :
    sign (c :: cs) = none := by
  unfold sign
  split
  · rename_i heq
    exact absurd (List.cons.inj heq).1 hn
  · rename_i heq
    exact absurd (List.cons.inj heq).1 hm
  · rfl

/-- No condition begins like an operator before its operand. -/
lemma sign_text (hd : d.Legible) (c : Condition) : sign ((c.text d).toList ++ rest) = none := by
  have ho := hd.opening
  have hs := hd.sign
  simp only [List.mem_cons, List.not_mem_nil, not_or] at ho hs
  cases c with
  | column name =>
    rw [Condition.text, d.toList_quote]
    exact sign_eq_none ho.2.2.1 ho.2.1 _
  | placeholder id =>
    rw [Condition.text, d.toList_numbered]
    exact sign_eq_none hs.2.2.1 hs.2.1 _
  | one =>
    rw [Condition.toList_one]
    exact sign_eq_none (by decide) (by decide) _
  | signed op x =>
    rw [Condition.toList_signed]
    exact sign_eq_none (by decide) (by decide) _
  | binary op l r =>
    rw [Condition.toList_binary]
    exact sign_eq_none (by decide) (by decide) _
  | among x ids =>
    rw [Condition.toList_among]
    exact sign_eq_none (by decide) (by decide) _

lemma token_ne (op : Infix) : ' ' ∉ op.token.toList ∧ op.token.toList ≠ ['I', 'N'] := by
  cases op <;> decide

/-- A condition is read off the text it begins, and the rest is left. The induction is on the
condition; each operator takes one unit of fuel and at least one character. -/
lemma condition_text (hd : d.Legible) (c : Condition)
    (hc : ∀ name ∈ c.columns, d.closing ∉ name.toList) (fuel : Nat)
    (hfuel : (c.text d).toList.length ≤ fuel) (hrest : Ends rest) :
    condition d fuel ((c.text d).toList ++ rest) = some (c, rest) := by
  have ho := hd.opening
  have hs := hd.sign
  simp only [List.mem_cons, List.not_mem_nil, not_or] at ho hs
  induction c generalizing fuel rest with
  | column name =>
    rw [Condition.text, d.toList_quote] at hfuel ⊢
    obtain ⟨fuel, rfl⟩ := Nat.exists_eq_succ_of_ne_zero (Nat.ne_zero_of_lt hfuel)
    rw [List.cons_append, condition_of_ne ho.1, List.append_assoc]
    have hname : upTo d.closing (name.toList ++ d.closing :: rest) = some (name.toList, rest) :=
      upTo_append (hc name (by simp [Condition.columns]))
    simp [atom, hname]
  | placeholder id =>
    rw [Condition.text, d.toList_numbered] at hfuel ⊢
    obtain ⟨fuel, rfl⟩ := Nat.exists_eq_succ_of_ne_zero (Nat.ne_zero_of_lt hfuel)
    rw [List.cons_append, condition_of_ne hs.1]
    simp [atom, hd.distinct, number_append hrest]
  | one =>
    rw [Condition.toList_one] at hfuel ⊢
    obtain ⟨fuel, rfl⟩ := Nat.exists_eq_succ_of_ne_zero (Nat.ne_zero_of_lt hfuel)
    rw [List.cons_append, condition_of_ne (by decide)]
    simp [atom, Ne.symm ho.2.2.2.1, Ne.symm hs.2.2.2.1]
  | signed op x ih =>
    rw [Condition.toList_signed] at hfuel ⊢
    obtain ⟨fuel, rfl⟩ := Nat.exists_eq_succ_of_ne_zero (Nat.ne_zero_of_lt hfuel)
    have hx : (x.text d).toList.length ≤ fuel := by simp at hfuel; omega
    have hends : Ends (')' :: rest) := ends_of_not_digit rfl
    have hread := ih hc fuel hx hends
    simp [condition, sign_token, hread]
  | binary op l r ihl ihr =>
    rw [Condition.toList_binary] at hfuel ⊢
    obtain ⟨fuel, rfl⟩ := Nat.exists_eq_succ_of_ne_zero (Nat.ne_zero_of_lt hfuel)
    have hlen : (l.text d).toList.length ≤ fuel ∧ (r.text d).toList.length ≤ fuel := by
      simp at hfuel; omega
    have hl : ∀ name ∈ l.columns, d.closing ∉ name.toList :=
      fun name h => hc name (List.mem_append_left _ h)
    have hr : ∀ name ∈ r.columns, d.closing ∉ name.toList :=
      fun name h => hc name (List.mem_append_right _ h)
    have hendsl : Ends (' ' :: (op.token.toList ++ ' ' :: ((r.text d).toList ++ ')' :: rest))) :=
      ends_of_not_digit rfl
    have hendsr : Ends (')' :: rest) := ends_of_not_digit rfl
    have hreadl := ihl hl fuel hlen.1 hendsl
    have hreadr := ihr hr fuel hlen.2 hendsr
    have hword : upTo ' ' (op.token.toList ++ ' ' :: ((r.text d).toList ++ ')' :: rest)) =
        some (op.token.toList, (r.text d).toList ++ ')' :: rest) := upTo_append (token_ne op).1
    simp [condition, sign_text hd, hreadl, hword, (token_ne op).2, infixOp_token, hreadr]
  | among x ids ih =>
    rw [Condition.toList_among] at hfuel ⊢
    obtain ⟨fuel, rfl⟩ := Nat.exists_eq_succ_of_ne_zero (Nat.ne_zero_of_lt hfuel)
    have hlen : (x.text d).toList.length ≤ fuel := by simp at hfuel; omega
    have hends : Ends (' ' :: 'I' :: 'N' :: ' ' :: '(' ::
        ((membersText d ids).toList ++ ')' :: ')' :: rest)) := ends_of_not_digit rfl
    have hread := ih hc fuel hlen hends
    have hword : upTo ' ' ('I' :: 'N' :: ' ' :: '(' ::
        ((membersText d ids).toList ++ ')' :: ')' :: rest)) =
        some (['I', 'N'], '(' :: ((membersText d ids).toList ++ ')' :: ')' :: rest)) := rfl
    have hmembers : members d ('(' :: ((membersText d ids).toList ++ ')' :: ')' :: rest)) =
        some (ids, ')' :: rest) := members_append hd ids
    simp [condition, sign_text hd, hread, hword, hmembers]

end Reading

/-- **What was written is read.** The written form of a condition leads back to it. -/
theorem read_text {d : Dialect} (hd : d.Legible) {c : Condition}
    (hc : ∀ name ∈ c.columns, d.closing ∉ name.toList) : read d (c.text d) = some c := by
  have hends : Reading.Ends [] := by simp [Reading.Ends]
  have h := Reading.condition_text hd c hc _ (Nat.le_refl _) hends
  rw [List.append_nil] at h
  rw [read, h]

end EntityStore.Sql
