import EntityStore.Proofs.Literals
import EntityStore.Proofs.Parameters
import EntityStore.Proofs.Patterns
import Mathlib.Logic.Function.Basic

/-!
Literals for placeholders. The text of a fragment is written out for reading by one replacement
after another, each over the whole text that the ones before it have left. Because the longest
placeholders go first, none is found inside another, and because a literal ends where it was made to
end, none arises where two pieces meet. So in the end each placeholder has become the literal of its
own parameter, as if all had been replaced at once.
-/

namespace EntityStore

/-! ### One replacement -/

namespace Text

variable {pattern new cs rest : List Char}

lemma substituteFrom_skip (pattern new cs rest : List Char) :
    substituteFrom pattern new cs.length (cs ++ rest) = substituteFrom pattern new 0 rest := by
  induction cs with
  | nil => rfl
  | cons c cs ih => exact ih

/-- Where the pattern stands, the new text is put. -/
lemma substituteFrom_self (h : pattern ≠ []) :
    substituteFrom pattern new 0 (pattern ++ rest) = new ++ substituteFrom pattern new 0 rest := by
  obtain ⟨c, cs, rfl⟩ := List.exists_cons_of_ne_nil h
  have hprefix : (c :: cs).isPrefixOf (c :: cs ++ rest) = true :=
    List.isPrefixOf_iff_prefix.mpr (List.prefix_append _ _)
  rw [List.cons_append] at hprefix ⊢
  rw [substituteFrom, if_pos hprefix, List.length_cons, Nat.add_sub_cancel,
    substituteFrom_skip]

/-- A text in which the pattern begins nowhere stays as it is. -/
lemma substituteFrom_append (h : ∀ ds, ds ≠ [] → ds <:+ cs → ¬ pattern <+: ds ++ rest) :
    substituteFrom pattern new 0 (cs ++ rest) = cs ++ substituteFrom pattern new 0 rest := by
  induction cs with
  | nil => rfl
  | cons c cs ih =>
    have hhead : ¬ pattern.isPrefixOf (c :: (cs ++ rest)) = true :=
      fun hp => h (c :: cs) (by simp) List.suffix_rfl (List.isPrefixOf_iff_prefix.mp hp)
    have htail := ih fun ds hne hds => h ds hne (hds.trans (List.suffix_cons c cs))
    rw [List.cons_append, substituteFrom, if_neg hhead, htail, List.cons_append]

end Text

namespace Sql

open Reading (Ends)

/-! ### Placeholders in a text -/

/-- The placeholder of a number. -/
def mark (id : Nat) : List Char := '@' :: Nat.toDigits 10 id

/-- No placeholder of the number begins in the text, whatever stands behind it that does not go on
with a digit. -/
def Clear (id : Nat) (cs : List Char) : Prop :=
  ∀ ds, ds ≠ [] → ds <:+ cs → ∀ rest, Ends rest → ¬ mark id <+: ds ++ rest

section Clear

variable {i j : Nat} {cs ds rest : List Char}

lemma isDigit_of_mem {c : Char} (h : c ∈ Nat.toDigits 10 i) : c.isDigit :=
  Nat.isDigit_of_mem_toDigits (by decide) (by decide) h

lemma toDigits_inj : Nat.toDigits 10 i = Nat.toDigits 10 j ↔ i = j := by
  refine ⟨fun h => ?_, congrArg _⟩
  rw [← Nat.ofDigitChars_ten_toDigits (n := i), h, Nat.ofDigitChars_ten_toDigits]

/-- Where the sign does not stand, no placeholder begins. -/
lemma not_mark_prefix (h : '@' ∉ cs) (hne : ds ≠ []) (hds : ds <:+ cs) :
    ¬ mark i <+: ds ++ rest := by
  obtain ⟨c, ds, rfl⟩ := List.exists_cons_of_ne_nil hne
  rintro ⟨_, hprefix⟩
  have hc : '@' = c := (List.cons.inj hprefix).1
  exact h (hc ▸ hds.subset List.mem_cons_self)

/-- A placeholder that begins in a literal would have to go on past the quote at its end. -/
lemma clear_literal {v : Value} (h : ¬ mark i <:+: v.literal.toList) :
    Clear i v.literal.toList := by
  intro ds hne hds rest _ hprefix
  rcases v.sign_notMem_or_quoted with hsign | ⟨cs, hcs⟩
  · exact not_mark_prefix hsign hne hds hprefix
  · rcases List.prefix_or_prefix_of_prefix hprefix (List.prefix_append ds rest) with hin | hout
    · exact h (hin.isInfix.trans hds.isInfix)
    · have hquote : '\'' ∈ ds := by
        have hlast := hds.getLast hne
        simp only [hcs, List.getLast_append_singleton] at hlast
        exact hlast ▸ List.getLast_mem hne
      have hmark : '\'' ∈ mark i := hout.subset hquote
      rcases List.mem_cons.mp hmark with hmark | hmark
      · cases hmark
      · exact absurd (isDigit_of_mem hmark) (by decide)

/-- A placeholder is found in no other one that is not longer. -/
lemma clear_mark (hij : i ≠ j)
    (hlength : (Nat.toDigits 10 j).length ≤ (Nat.toDigits 10 i).length) : Clear i (mark j) := by
  intro ds hne hds rest hrest hprefix
  rcases List.suffix_cons_iff.mp hds with rfl | hds
  · have hprefix : Nat.toDigits 10 i <+: Nat.toDigits 10 j ++ rest :=
      (List.cons_prefix_cons.mp hprefix).2
    rcases List.prefix_or_prefix_of_prefix (List.prefix_append _ rest) hprefix with hin | hout
    · obtain ⟨tail, htail⟩ := hin
      rw [← htail, List.prefix_append_right_inj] at hprefix
      rcases tail with _ | ⟨c, tail⟩
      · rw [List.append_nil, toDigits_inj] at htail
        exact hij htail.symm
      · -- The longer one would go on with a digit behind the shorter one.
        obtain ⟨rest, rfl⟩ := hprefix
        exact hrest c rfl (isDigit_of_mem (i := i) (htail ▸ by simp))
    · exact hij (toDigits_inj.mp (hout.eq_of_length_le hlength))
  · exact not_mark_prefix (fun h => absurd (isDigit_of_mem h) (by decide)) hne hds hprefix

end Clear

/-! ### Pieces between placeholders -/

namespace Lexeme

/-- The pieces one after another, with texts of choice for the placeholders. -/
def filled (d : Dialect) (σ : Nat → List Char) (ls : List Lexeme) : List Char :=
  ls.flatMap fun
    | placeholder id => σ id
    | l => (l.text d).toList

/-- Placeholders with text between them that has no sign in it, and behind each of them a piece that
no digit begins. -/
inductive Spaced (d : Dialect) : List Lexeme → Prop
  | nil : Spaced d []
  | plain {l : Lexeme} {ls : List Lexeme} (hid : l.id? = none) (h : '@' ∉ (l.text d).toList)
      (hls : Spaced d ls) : Spaced d (l :: ls)
  | placeholder {id : Nat} {ls : List Lexeme} (h : ∀ σ, Ends (filled d σ ls)) (hls : Spaced d ls) :
      Spaced d (placeholder id :: ls)

variable {d : Dialect} {σ τ : Nat → List Char} {ls : List Lexeme}

lemma eq_placeholder {l : Lexeme} {id : Nat} (h : l.id? = some id) : l = placeholder id := by
  cases l <;> cases h
  rfl

lemma filled_placeholder (σ : Nat → List Char) (id : Nat) (ls : List Lexeme) :
    filled d σ (placeholder id :: ls) = σ id ++ filled d σ ls := rfl

lemma filled_plain {l : Lexeme} (h : l.id? = none) (σ : Nat → List Char) (ls : List Lexeme) :
    filled d σ (l :: ls) = (l.text d).toList ++ filled d σ ls := by
  cases l with
  | placeholder id => cases h
  | _ => rfl

lemma filled_congr (h : ∀ id ∈ ls.filterMap id?, σ id = τ id) : filled d σ ls = filled d τ ls := by
  induction ls with
  | nil => rfl
  | cons l ls ih =>
    rcases hid : l.id? with _ | id
    · rw [List.filterMap_cons_none hid] at h
      rw [filled_plain hid, filled_plain hid, ih h]
    · rw [List.filterMap_cons_some hid, List.forall_mem_cons] at h
      obtain rfl := eq_placeholder hid
      rw [filled_placeholder, filled_placeholder, h.1, ih h.2]

lemma toList_written (d : Dialect) (ls : List Lexeme) :
    (written d ls).toList = filled d (fun id => (d.numbered id).toList) ls := by
  induction ls with
  | nil => rfl
  | cons l ls ih =>
    rw [written_cons, String.toList_append, ih]
    rcases hid : l.id? with _ | id
    · rw [filled_plain hid]
    · obtain rfl := eq_placeholder hid
      rfl

/-- One replacement in a text of pieces: it changes the placeholders of its number to the new text,
and nothing else, if these are still as they were written and the others are clear of it. -/
lemma substitute_filled (hls : Spaced d ls) {k : Nat} {new : List Char}
    (h : ∀ id ∈ ls.filterMap id?, id = k ∧ σ id = mark k ∨ id ≠ k ∧ Clear k (σ id)) :
    Text.substituteFrom (mark k) new 0 (filled d σ ls) =
      filled d (Function.update σ k new) ls := by
  induction hls with
  | nil => rfl
  | plain hid hsign _ ih =>
    rw [List.filterMap_cons_none hid] at h
    rw [filled_plain hid, filled_plain hid, ← ih h]
    exact Text.substituteFrom_append fun ds hne hds => not_mark_prefix hsign hne hds
  | @placeholder id ls hends _ ih =>
    rw [List.filterMap_cons_some (f := id?) rfl, List.forall_mem_cons] at h
    rw [filled_placeholder, filled_placeholder, ← ih h.2]
    rcases h.1 with ⟨rfl, hmark⟩ | ⟨hne, hclear⟩
    · rw [hmark, Function.update_self]
      exact Text.substituteFrom_self (List.cons_ne_nil _ _)
    · rw [Function.update_of_ne hne]
      exact Text.substituteFrom_append fun ds hds hsuffix => hclear ds hds hsuffix _ (hends σ)

/-! #### Conditions -/

/-- The pieces that are the same in every condition have no sign in them. -/
lemma sign_notMem_text (hd : d.Usual) {l : Lexeme} (hid : l.id? = none)
    (hl : ∀ name, l = column name → '@' ∉ name.toList) : '@' ∉ (l.text d).toList := by
  cases l with
  | placeholder id => cases hid
  | column name =>
    have hname := hl name rfl
    simp [text, d.toList_quote, hd.opening, hd.closing, hname]
  | sign op => cases op <;> simp [text, Sign.token]
  | between op => cases op <;> simp [text, Infix.token]
  | _ => simp [text]

lemma ends_filled {l : Lexeme} (hl : l = blank ∨ l = closing ∨ l = comma) (σ : Nat → List Char)
    (ls : List Lexeme) : Ends (filled d σ (l :: ls)) := by
  rcases hl with rfl | rfl | rfl <;> rw [filled_plain rfl] <;> simp [text, Ends]

lemma spaced_members (hd : d.Usual) (ids : List Nat) (hls : Spaced d ls)
    (hends : ∀ σ, Ends (filled d σ ls)) : Spaced d (members ids ++ ls) := by
  rcases ids with _ | ⟨id, ids⟩
  · exact .plain rfl (sign_notMem_text hd rfl (by simp)) hls
  · have htail : ∀ ids : List Nat,
        Spaced d ((ids.flatMap fun id => [comma, placeholder id]) ++ ls) ∧
          ∀ σ, Ends (filled d σ ((ids.flatMap fun id => [comma, placeholder id]) ++ ls)) := by
      intro ids
      induction ids with
      | nil => exact ⟨hls, hends⟩
      | cons id ids ih =>
        exact ⟨.plain rfl (sign_notMem_text hd rfl (by simp)) (.placeholder ih.2 ih.1),
          fun σ => ends_filled (.inr (.inr rfl)) σ _⟩
    exact .placeholder (htail ids).2 (htail ids).1

/-- A condition is written in pieces that keep its placeholders apart. -/
lemma spaced_lexemes (hd : d.Usual) {c : Condition} (hc : ∀ name ∈ c.columns, '@' ∉ name.toList)
    (hls : Spaced d ls) (hends : ∀ σ, Ends (filled d σ ls)) : Spaced d (c.lexemes ++ ls) := by
  have hplain : ∀ {l : Lexeme} {ls : List Lexeme}, l.id? = none → (∀ name, l ≠ column name) →
      Spaced d ls → Spaced d (l :: ls) :=
    fun hid hl hls => .plain hid (sign_notMem_text hd hid fun name h => absurd h (hl name)) hls
  induction c generalizing ls with
  | column name =>
    refine .plain rfl (sign_notMem_text hd rfl fun name' h => ?_) hls
    cases h
    exact hc name (by simp [Condition.columns])
  | placeholder id => exact .placeholder hends hls
  | one => exact hplain rfl (by simp) hls
  | signed op x ih =>
    have hx := ih hc (hplain (l := closing) rfl (by simp) hls)
      fun σ => ends_filled (.inr (.inl rfl)) σ ls
    simp only [Condition.lexemes, List.cons_append, List.append_assoc, List.nil_append]
    exact hplain rfl (by simp) (hplain rfl (by simp) (hplain rfl (by simp) hx))
  | binary op l r ihl ihr =>
    have hr := ihr (fun name h => hc name (List.mem_append_right _ h))
      (hplain (l := closing) rfl (by simp) hls) fun σ => ends_filled (.inr (.inl rfl)) σ ls
    have hl := ihl (fun name h => hc name (List.mem_append_left _ h))
      (hplain (l := blank) rfl (by simp) (hplain (l := between op) rfl (by simp)
        (hplain (l := blank) rfl (by simp) hr))) fun σ => ends_filled (.inl rfl) σ _
    simp only [Condition.lexemes, List.cons_append, List.append_assoc, List.nil_append]
    exact hplain rfl (by simp) hl
  | among x ids ih =>
    have hids := spaced_members hd ids (hplain (l := closing) rfl (by simp)
      (hplain (l := closing) rfl (by simp) hls)) fun σ => ends_filled (.inr (.inl rfl)) σ _
    have hx := ih hc (hplain (l := blank) rfl (by simp) (hplain (l := Lexeme.among) rfl (by simp)
      (hplain (l := blank) rfl (by simp) (hplain (l := opening) rfl (by simp) hids))))
      fun σ => ends_filled (.inl rfl) σ _
    simp only [Condition.lexemes, List.cons_append, List.append_assoc, List.nil_append]
    exact hplain rfl (by simp) hx

end Lexeme

/-! ### All replacements -/

namespace Fragment

open Lexeme

variable {d : Dialect} {p q : Parameter} {ps : List Parameter} {ls : List Lexeme}
  {lit : Nat → List Char}

lemma goesBefore_iff : goesBefore p q ↔ q.name.utf8ByteSize < p.name.utf8ByteSize ∨
    p.name.utf8ByteSize = q.name.utf8ByteSize ∧ q.id ≤ p.id := by
  simp [goesBefore]

lemma goesBefore_trans (p q r : Parameter) (hpq : goesBefore p q) (hqr : goesBefore q r) :
    goesBefore p r := by
  rw [goesBefore_iff] at *
  omega

lemma goesBefore_total (p q : Parameter) : (goesBefore p q || goesBefore q p) = true := by
  rw [Bool.or_eq_true, goesBefore_iff, goesBefore_iff]
  omega

lemma toList_numbered (hd : d.Usual) (id : Nat) : (d.numbered id).toList = mark id := by
  rw [d.toList_numbered, hd.sign, mark]

/-- A placeholder takes one byte for each of its characters. -/
lemma size_numbered (hd : d.Usual) (id : Nat) :
    (d.numbered id).utf8ByteSize = (Nat.toDigits 10 id).length + 1 := by
  have hdigits : ∀ {cs : List Char}, (∀ c ∈ cs, c.isDigit) →
      (String.ofList cs).utf8ByteSize = cs.length := by
    intro cs hcs
    induction cs with
    | nil => rfl
    | cons c cs ih =>
      have hc : c.utf8Size = 1 := by
        have hdigit := (Char.isDigit_iff_toNat.mp (hcs c (by simp))).2
        rw [Char.utf8Size_eq_one_iff, UInt32.le_iff_toNat_le]
        exact Nat.le_trans hdigit (by decide)
      rw [String.ofList_cons, String.utf8ByteSize_append, String.utf8ByteSize_singleton, hc,
        ih fun c' hc' => hcs c' (by simp [hc']), List.length_cons, Nat.add_comm]
  rw [← String.ofList_toList (s := d.numbered id), toList_numbered hd, mark, String.ofList_cons,
    String.utf8ByteSize_append, String.utf8ByteSize_singleton, hdigits fun c => isDigit_of_mem,
    Nat.add_comm]
  rfl

/-- What stands for a placeholder as long as the literals of these parameters are still to be
written. -/
def awaiting (ps : List Parameter) (lit : Nat → List Char) (id : Nat) : List Char :=
  if id ∈ ps.map Parameter.id then mark id else lit id

lemma awaiting_of_mem {id : Nat} (h : id ∈ ps.map Parameter.id) : awaiting ps lit id = mark id :=
  if_pos h

lemma awaiting_of_notMem {id : Nat} (h : id ∉ ps.map Parameter.id) : awaiting ps lit id = lit id :=
  if_neg h

/-- Parameters in the order in which their literals are written. -/
structure Queue (d : Dialect) (lit : Nat → List Char) (ps : List Parameter) : Prop where
  named : ∀ p ∈ ps, p.name = d.numbered p.id ∧ p.value.literal.toList = lit p.id
  nodup : (ps.map Parameter.id).Nodup
  order : ps.Pairwise fun p q => goesBefore p q

lemma Queue.tail (h : Queue d lit (p :: ps)) : Queue d lit ps :=
  ⟨fun q hq => h.named q (by simp [hq]), (List.nodup_cons.mp h.nodup).2,
    (List.pairwise_cons.mp h.order).2⟩

/-- One literal is written: of the parameters to come the placeholders are not longer, and those
gone before have left literals in which the placeholder is not found. -/
lemma inline_filled (hd : d.Usual) (hls : Spaced d ls) (h : Queue d lit (p :: ps))
    (hlit : ∀ id ∈ ls.filterMap id?, id ≠ p.id → Clear p.id (lit id)) :
    inline (filled d (awaiting (p :: ps) lit) ls) p = filled d (awaiting ps lit) ls := by
  obtain ⟨hname, hliteral⟩ := h.named p (by simp)
  have hupdate : Function.update (awaiting (p :: ps) lit) p.id (lit p.id) = awaiting ps lit := by
    funext id
    by_cases hid : id = p.id
    · subst hid
      rw [Function.update_self, awaiting_of_notMem (List.nodup_cons.mp h.nodup).1]
    · simp [awaiting, hid]
  have hpattern : (mark p.id).isEmpty = false := rfl
  rw [inline, hname, toList_numbered hd, hliteral, Text.substitute, hpattern,
    if_neg Bool.false_ne_true, ← hupdate]
  refine substitute_filled hls fun id hid => ?_
  by_cases hp : id = p.id
  · subst hp
    exact .inl ⟨rfl, awaiting_of_mem (by simp)⟩
  · refine .inr ⟨hp, ?_⟩
    by_cases hmem : id ∈ ps.map Parameter.id
    · obtain ⟨q, hq, rfl⟩ := List.mem_map.mp hmem
      have hbefore := goesBefore_iff.mp ((List.pairwise_cons.mp h.order).1 q hq)
      rw [hname, (h.named q (by simp [hq])).1, size_numbered hd, size_numbered hd] at hbefore
      rw [awaiting_of_mem (List.mem_cons_of_mem _ hmem)]
      exact clear_mark (Ne.symm hp) (by omega)
    · rw [awaiting_of_notMem (by simpa using ⟨hp, by simpa using hmem⟩)]
      exact hlit id hid hp

/-- All literals are written, one after another. -/
lemma foldl_inline (hd : d.Usual) (hls : Spaced d ls) (h : Queue d lit ps)
    (hlit : ∀ p ∈ ps, ∀ id ∈ ls.filterMap id?, id ≠ p.id → Clear p.id (lit id)) :
    ps.foldl inline (filled d (awaiting ps lit) ls) = filled d lit ls := by
  induction ps with
  | nil => exact filled_congr fun id _ => awaiting_of_notMem (by simp)
  | cons p ps ih =>
    rw [List.foldl_cons, inline_filled hd hls h (hlit p (by simp))]
    exact ih h.tail fun q hq => hlit q (by simp [hq])

/-! ### All at once -/

/-- The text with the literals of the parameters written over their placeholders, in one pass from
the left. A placeholder is a name that no digit goes on with, and what is written is not looked at
again; `skip` characters still belong to the placeholder written over last. -/
def simultaneous (params : List Parameter) : Nat → List Char → List Char
  | _, [] => []
  | skip + 1, _ :: cs => simultaneous params skip cs
  | 0, c :: cs =>
    match params.find? (·.name.toList = c :: cs.takeWhile Char.isDigit) with
    | some p =>
      p.value.literal.toList ++ simultaneous params (cs.takeWhile Char.isDigit).length cs
    | none => c :: simultaneous params 0 cs

section Simultaneous

variable {cs rest : List Char}

lemma simultaneous_skip (ps : List Parameter) (cs rest : List Char) :
    simultaneous ps cs.length (cs ++ rest) = simultaneous ps 0 rest := by
  induction cs with
  | nil => rfl
  | cons c cs ih => exact ih

/-- Where the sign does not stand, nothing is written over. -/
lemma simultaneous_append (hps : ∀ p ∈ ps, ∃ id, p.name.toList = mark id) (h : '@' ∉ cs) :
    simultaneous ps 0 (cs ++ rest) = cs ++ simultaneous ps 0 rest := by
  induction cs with
  | nil => rfl
  | cons c cs ih =>
    rw [List.mem_cons, not_or] at h
    have hnone : ps.find? (·.name.toList = c :: (cs ++ rest).takeWhile Char.isDigit) = none := by
      refine List.find?_eq_none.mpr fun p hp => ?_
      obtain ⟨id, hid⟩ := hps p hp
      simpa [hid, mark] using fun hc => absurd hc h.1
    rw [List.cons_append, simultaneous, hnone, ih h.2, List.cons_append]

lemma simultaneous_mark {id : Nat}
    (h : ps.find? (·.name.toList = mark id) = some p) (hrest : Ends rest) :
    simultaneous ps 0 (mark id ++ rest) = p.value.literal.toList ++ simultaneous ps 0 rest := by
  have hdigits : (Nat.toDigits 10 id ++ rest).takeWhile Char.isDigit = Nat.toDigits 10 id := by
    have hnone : rest.takeWhile Char.isDigit = [] := by
      rcases rest with _ | ⟨c, rest⟩
      · rfl
      · exact List.takeWhile_cons_of_neg (hrest c rfl)
    rw [List.takeWhile_append_of_pos fun c hc => isDigit_of_mem hc, hnone, List.append_nil]
  rw [mark] at h ⊢
  rw [List.cons_append, simultaneous, hdigits, h]
  exact congrArg _ (simultaneous_skip ps _ rest)

/-- In a text of pieces just the placeholders are written over. -/
lemma simultaneous_filled (hps : ∀ p ∈ ps, ∃ id, p.name.toList = mark id) (hls : Spaced d ls)
    (h : ∀ id ∈ ls.filterMap id?, ∃ p, ps.find? (·.name.toList = mark id) = some p ∧
      p.value.literal.toList = lit id) :
    simultaneous ps 0 (filled d mark ls) = filled d lit ls := by
  induction hls with
  | nil => rfl
  | plain hid hsign _ ih =>
    rw [List.filterMap_cons_none hid] at h
    rw [filled_plain hid, filled_plain hid, simultaneous_append hps hsign, ih h]
  | @placeholder id ls hends _ ih =>
    rw [List.filterMap_cons_some (f := id?) rfl, List.forall_mem_cons] at h
    obtain ⟨⟨p, hp, hliteral⟩, h⟩ := h
    rw [filled_placeholder, filled_placeholder, simultaneous_mark hp (hends mark), hliteral, ih h]

end Simultaneous

/-- The text with each placeholder replaced by the literal of its own parameter. -/
def inlined (f : Fragment) : String := .ofList (simultaneous f.params 0 f.text.toList)

/-- No literal has the placeholder of another parameter in it. -/
def Separate (f : Fragment) : Prop :=
  ∀ p ∈ f.params, ∀ q ∈ f.params, p.id ≠ q.id → ¬ q.name.toList <:+: p.value.literal.toList

end Fragment

/-! ### What is compiled -/

namespace Compiled

open Fragment Lexeme

variable {d : Dialect} {T : EntityType} {c : Compiled} {x : Expr} {p : Parameter}

/-- The literal of the value of a placeholder. -/
def literalOf (c : Compiled) (id : Nat) : List Char := (c.values.getD id .null).literal.toList

lemma mem_params_fragment : p ∈ (c.fragment d).params ↔
    ∃ v, c.values[p.id]? = some v ∧ p = ⟨p.id, d.numbered p.id, v⟩ := by
  simp only [fragment, List.mem_map, List.mem_zipIdx_iff_getElem?, Prod.exists]
  constructor
  · rintro ⟨v, i, hv, rfl⟩
    exact ⟨v, hv, rfl⟩
  · rintro ⟨v, hv, hp⟩
    exact ⟨v, p.id, hv, hp.symm⟩

lemma named_of_mem (h : p ∈ (c.fragment d).params) :
    p.name = d.numbered p.id ∧ p.value.literal.toList = c.literalOf p.id := by
  obtain ⟨v, hv, hp⟩ := mem_params_fragment.mp h
  rw [hp]
  exact ⟨rfl, by rw [literalOf, List.getD_eq_getElem?_getD, hv]; rfl⟩

lemma ids_params_fragment (c : Compiled) :
    (c.fragment d).params.map Parameter.id = List.range' 0 c.values.length := by
  have hids : (c.fragment d).params.map Parameter.id = c.values.zipIdx.map Prod.snd := by
    rw [fragment, List.map_map]
    rfl
  simp [hids]

/-- Each placeholder of the text has its parameter. -/
lemma exists_mem_params (h : ofExpr d T x true 0 = .ok c) {id : Nat}
    (hid : id ∈ c.condition.lexemes.filterMap id?) : ∃ p ∈ (c.fragment d).params, p.id = id := by
  obtain ⟨hrange, hvalues⟩ := linesUp_ofExpr h
  have hmem : id ∈ (c.fragment d).params.map Parameter.id := by
    rw [ids_params_fragment, hvalues, ← hrange]
    exact hid
  exact List.mem_map.mp hmem

lemma queue_params (c : Compiled) :
    Queue d c.literalOf ((c.fragment d).params.mergeSort goesBefore) := by
  have hperm := List.mergeSort_perm (c.fragment d).params goesBefore
  refine ⟨fun p hp => named_of_mem (hperm.mem_iff.mp hp), ?_, ?_⟩
  · rw [(hperm.map Parameter.id).nodup_iff, ids_params_fragment]
    exact List.nodup_range'
  · exact List.pairwise_mergeSort goesBefore_trans goesBefore_total _

variable (hd : d.Usual)

include hd

lemma toList_text_fragment (c : Compiled) :
    (c.fragment d).text.toList = filled d mark c.condition.lexemes := by
  rw [fragment, ← c.condition.written_lexemes, toList_written]
  exact filled_congr fun id _ => toList_numbered hd id

lemma name_toList (h : p ∈ (c.fragment d).params) : p.name.toList = mark p.id := by
  rw [(named_of_mem h).1, toList_numbered hd]

/-- One replacement after another. -/
lemma toList_raw (h : ofExpr d T x true 0 = .ok c) (hls : Spaced d c.condition.lexemes)
    (hc : (c.fragment d).Separate) :
    (c.fragment d).raw.toList = filled d c.literalOf c.condition.lexemes := by
  have hperm := List.mergeSort_perm (c.fragment d).params goesBefore
  have hstart : filled d mark c.condition.lexemes = filled d
      (awaiting ((c.fragment d).params.mergeSort goesBefore) c.literalOf) c.condition.lexemes := by
    refine filled_congr fun id hid => (awaiting_of_mem ?_).symm
    obtain ⟨p, hp, rfl⟩ := exists_mem_params h hid
    exact List.mem_map_of_mem (hperm.mem_iff.mpr hp)
  rw [raw, String.toList_ofList, toList_text_fragment hd, hstart]
  refine foldl_inline hd hls (queue_params c) fun p hp id hid hne => ?_
  obtain ⟨q, hq, rfl⟩ := exists_mem_params h hid
  have hp := hperm.mem_iff.mp hp
  rw [← (named_of_mem hq).2]
  refine clear_literal ?_
  rw [← name_toList hd hp]
  exact hc q hq p hp hne

/-- All replacements at once. -/
lemma toList_inlined (h : ofExpr d T x true 0 = .ok c) (hls : Spaced d c.condition.lexemes) :
    (c.fragment d).inlined.toList = filled d c.literalOf c.condition.lexemes := by
  rw [inlined, String.toList_ofList, toList_text_fragment hd]
  refine simultaneous_filled (fun p hp => ⟨p.id, name_toList hd hp⟩) hls fun id hid => ?_
  obtain ⟨q, hq, rfl⟩ := exists_mem_params h hid
  have hsome : ((c.fragment d).params.find? (·.name.toList = mark q.id)).isSome :=
    List.find?_isSome.mpr ⟨q, hq, by simpa using name_toList hd hq⟩
  obtain ⟨p, hp⟩ := Option.isSome_iff_exists.mp hsome
  -- The first parameter of the name is the only one: the name tells the number.
  have hmem := List.mem_of_find?_eq_some hp
  have hname : mark p.id = mark q.id := by
    rw [← name_toList hd hmem]
    simpa using List.find?_some hp
  refine ⟨p, hp, ?_⟩
  rw [(named_of_mem hmem).2, toDigits_inj.mp (List.cons.inj hname).2]

end Compiled

variable {d : Dialect} {T : EntityType} {x : Expr} {f : Fragment}

/-- **Literals stand just where the placeholders stood.** The replacements, one after another over
the whole text, have the outcome of replacing each placeholder of the text by the literal of its own
parameter, all at once, and nothing besides. -/
theorem raw_compile (hd : d.Usual) (hT : ∀ f ∈ T.fields, '@' ∉ f.name.toList)
    (h : compile d T x = .ok f) (hf : f.Separate) : f.raw = f.inlined := by
  unfold compile at h
  rcases hc : Compiled.ofExpr d T x true 0 with err | c
  · rw [hc] at h
    cases h
  · rw [hc] at h
    cases h
    have hcolumns : ∀ name ∈ c.condition.columns, '@' ∉ name.toList := by
      intro name hname
      obtain ⟨g, hg, rfl⟩ := (Compiled.shows_ofExpr hc).columns name hname
      exact hT g hg
    have hls := Lexeme.spaced_lexemes hd hcolumns .nil fun σ => by simp [Lexeme.filled, Ends]
    rw [List.append_nil] at hls
    rw [← String.toList_inj, Compiled.toList_raw hd hc hls hf, Compiled.toList_inlined hd hc hls]

end Sql

namespace Club

open Sql

/-- Named after a placeholder, or of one of many ages. -/
def surveyed : Expr :=
  .binary .or (.matching .contains (.field "name") (.constant (.text "@0's")))
    (.among (.field "age") [.int 20, .int 21, .int 22, .int 23, .int 24, .int 25, .int 26, .int 27,
      .int 28, .int 29])

theorem surveyed_inlined : ∃ f, compile .sqlServer member.type surveyed = .ok f ∧
    f.text = "(([name] LIKE @0) OR ([age] IN (@1,@2,@3,@4,@5,@6,@7,@8,@9,@10)))" ∧
    f.raw = "(([name] LIKE '%@0''s%') OR ([age] IN (20,21,22,23,24,25,26,27,28,29)))" := by
  obtain ⟨f, hf, htext, hseparate, hinlined⟩ : ∃ f,
      compile .sqlServer member.type surveyed = .ok f ∧
      f.text = "(([name] LIKE @0) OR ([age] IN (@1,@2,@3,@4,@5,@6,@7,@8,@9,@10)))" ∧
      f.Separate ∧
      f.inlined = "(([name] LIKE '%@0''s%') OR ([age] IN (20,21,22,23,24,25,26,27,28,29)))" :=
    ⟨_, rfl, rfl, by unfold Fragment.Separate; decide +kernel, by decide +kernel⟩
  have hnames : ∀ f ∈ member.type.fields, '@' ∉ f.name.toList := by decide
  exact ⟨f, hf, htext, (raw_compile ⟨rfl, rfl, rfl⟩ hnames hf hseparate).trans hinlined⟩

end Club

end EntityStore
