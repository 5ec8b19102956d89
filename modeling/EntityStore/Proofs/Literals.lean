import EntityStore.Value.Text
import Mathlib.Logic.Function.Defs
import Mathlib.Tactic.Lemma

/-!
Texts as literals. A database reads a quoted text character by character: two quotes stand for one,
and a quote that is not followed by another is the end. Read in this way a literal ends where it was
made to end, whatever quotes its text has in it and wherever they stand, and gives the text back.

No literal runs into a placeholder behind it: one that has the sign of a placeholder in it is
quoted.
-/

namespace EntityStore

namespace Text

/-- Read on in a quoted text: its content up to the quote that ends it, and what follows that. -/
def scanContent : List Char → Option (List Char × List Char)
  | [] => none
  | '\'' :: '\'' :: cs => (scanContent cs).map fun p => ('\'' :: p.1, p.2)
  | '\'' :: cs => some ([], cs)
  | c :: cs => (scanContent cs).map fun p => (c :: p.1, p.2)

/-- Read a quoted text from its first quote on: what it says, and what follows it. -/
def scanQuoted : List Char → Option (List Char × List Char)
  | '\'' :: cs => scanContent cs
  | _ => none

/-- Each quote written twice. -/
def doubled (s : List Char) : List Char := s.flatMap fun c => if c = '\'' then ['\'', '\''] else [c]

/-- The text does not begin with a quote. -/
def Unquoted (rest : List Char) : Prop := rest.head? ≠ some '\''

@[simp] lemma doubled_quote (s : List Char) : doubled ('\'' :: s) = '\'' :: '\'' :: doubled s := rfl

lemma doubled_cons {c : Char} (h : c ≠ '\'') (s : List Char) :
    doubled (c :: s) = c :: doubled s := by
  simp [doubled, h]

section Scan

variable {cs rest s : List Char}

lemma scanContent_end (h : Unquoted rest) : scanContent ('\'' :: rest) = some ([], rest) := by
  rcases rest with _ | ⟨c, rest⟩
  · rfl
  · have hc : c ≠ '\'' := fun e => h (by rw [e]; rfl)
    rw [scanContent]
    exact fun cs e => hc (List.cons.inj e).1

lemma scanContent_cons {c : Char} (h : c ≠ '\'') (cs : List Char) :
    scanContent (c :: cs) = (scanContent cs).map fun p => (c :: p.1, p.2) := by
  rw [scanContent]
  · exact fun _ e => absurd e h
  · exact fun e => absurd e h

/-- Doubled quotes are passed, each as one; the first quote that stands alone is the end. -/
lemma scanContent_doubled (s : List Char) (h : Unquoted rest) :
    scanContent (doubled s ++ '\'' :: rest) = some (s, rest) := by
  induction s with
  | nil => exact scanContent_end h
  | cons c s ih =>
    by_cases hc : c = '\''
    · subst hc
      rw [doubled_quote, List.cons_append, List.cons_append, scanContent, ih]
      rfl
    · rw [doubled_cons hc, List.cons_append, scanContent_cons hc, ih]
      rfl

/-- Nothing else is read: the content was written with doubled quotes, and ended there. -/
lemma eq_of_scanContent (h : scanContent cs = some (s, rest)) :
    cs = doubled s ++ '\'' :: rest ∧ Unquoted rest := by
  fun_induction scanContent cs generalizing s with
  | case1 => cases h
  | case2 cs ih =>
    obtain ⟨⟨t, _⟩, ht, h⟩ := Option.map_eq_some_iff.mp h
    cases h
    obtain ⟨rfl, hrest⟩ := ih ht
    exact ⟨rfl, hrest⟩
  | case3 cs hsingle =>
    cases h
    refine ⟨rfl, fun hquote => ?_⟩
    obtain ⟨cs', rfl⟩ := List.head?_eq_some_iff.mp hquote
    exact hsingle cs' rfl
  | case4 c cs _ hc ih =>
    obtain ⟨⟨t, _⟩, ht, h⟩ := Option.map_eq_some_iff.mp h
    cases h
    obtain ⟨rfl, hrest⟩ := ih ht
    exact ⟨by rw [doubled_cons hc]; rfl, hrest⟩

lemma scanContent_eq_some :
    scanContent cs = some (s, rest) ↔ cs = doubled s ++ '\'' :: rest ∧ Unquoted rest :=
  ⟨eq_of_scanContent, fun ⟨h, hrest⟩ => h ▸ scanContent_doubled s hrest⟩

end Scan

end Text

namespace Value

open Text

lemma toList_literal_text (s : String) :
    (text s).literal.toList = '\'' :: (doubled s.toList ++ ['\'']) := by
  simp [literal, quotedLiteral, doubled]

/-- What is read as a quoted text is the literal of that text, with no quote behind it. -/
lemma scanQuoted_eq_some {s : String} {cs rest : List Char} :
    scanQuoted cs = some (s.toList, rest) ↔
      cs = (text s).literal.toList ++ rest ∧ Unquoted rest := by
  rw [toList_literal_text, List.cons_append, List.append_assoc, List.singleton_append]
  unfold scanQuoted
  split
  · rw [scanContent_eq_some, List.cons_inj_right]
  · rename_i hquote
    constructor
    · intro h
      cases h
    · rintro ⟨rfl, -⟩
      exact absurd rfl (hquote _)

/-- **A text cannot break out of its literal.** Reading what begins with the literal of a text gives
that text, and goes on just where the literal ends, whatever follows that does not begin with a
quote; nothing else is read as the text. So texts with the same literal are the same. -/
theorem literal_contained :
    (∀ (s : String) (cs rest : List Char), scanQuoted cs = some (s.toList, rest) ↔
        cs = (text s).literal.toList ++ rest ∧ Unquoted rest) ∧
      Function.Injective fun s => (text s).literal := by
  refine ⟨fun s cs rest => scanQuoted_eq_some, fun s t h => ?_⟩
  have hread : ∀ u : String, scanQuoted (text u).literal.toList = some (u.toList, []) :=
    fun u => scanQuoted_eq_some.mpr ⟨(List.append_nil _).symm, by simp [Unquoted]⟩
  have h : (text s).literal = (text t).literal := h
  have hst := hread s
  rw [h, hread t] at hst
  exact String.toList_inj.mp (Prod.mk.inj (Option.some.inj hst)).1.symm

/-- Quotes at both ends, two of them at the beginning. -/
example : (text "'' OR 1=1--'").literal = "''''' OR 1=1--'''" ∧
    scanQuoted "''''' OR 1=1--''')".toList = some ("'' OR 1=1--'".toList, [')']) := by decide

end Value

/-! ### What literals are made of -/

namespace Decimal

/-- Digits, and at most a point besides. -/
lemma mem_layout {d : Dec} {c : Char} (h : c ∈ layout d) : c.isDigit ∨ c = '.' := by
  have hdigits : c ∈ Nat.toDigits 10 d.digits → c.isDigit :=
    Nat.isDigit_of_mem_toDigits (by decide) (by decide)
  have hzeros : ∀ n, c ∈ List.replicate n '0' → c.isDigit := by
    intro n hc
    rw [List.eq_of_mem_replicate hc]
    rfl
  have hpadded : ∀ n, c ∈ List.replicate n '0' ++ Nat.toDigits 10 d.digits → c.isDigit := by
    intro n hc
    exact (List.mem_append.mp hc).elim (hzeros n) hdigits
  have hfraction : ∀ {s : List Char}, c ∈ dropZeros s → c ∈ s := by
    intro s hc
    rw [dropZeros, List.mem_reverse] at hc
    exact List.mem_reverse.mp ((List.dropWhile_sublist _).subset hc)
  unfold layout at h
  dsimp only at h
  split at h
  · exact .inl ((List.mem_append.mp h).elim hdigits (hzeros _))
  · split at h
    · exact .inl (hpadded _ (List.mem_of_mem_take h))
    · rcases List.mem_append.mp h with h | h
      · exact .inl (hpadded _ (List.mem_of_mem_take h))
      · rcases List.mem_cons.mp h with h | h
        · exact .inr h
        · exact .inl (hpadded _ (List.mem_of_mem_drop (hfraction h)))

end Decimal

namespace Value

/-- The literal of a number has no letters or signs but those of numbers. -/
lemma sign_notMem_ofFloat (x : Float) : '@' ∉ (Decimal.ofFloat x).toList := by
  unfold Decimal.ofFloat
  split
  · decide
  · have hlayout : ∀ d, '@' ∉ Decimal.layout d := fun d h =>
      absurd (Decimal.mem_layout h) (by decide)
    dsimp only
    split <;> split <;> (try split) <;> simp [hlayout]

lemma sign_notMem_toString (i : Int) : '@' ∉ (toString i).toList := by
  have hnat : ∀ n : Nat, '@' ∉ n.repr.toList := by
    intro n h
    rw [Nat.toList_repr] at h
    exact absurd (Nat.isDigit_of_mem_toDigits (by decide) (by decide) h) (by decide)
  rw [Int.toString_eq_repr, Int.repr_eq_if]
  split
  · exact hnat _
  · simpa using hnat _

/-- A literal without quotes has no sign of a placeholder in it. -/
lemma sign_notMem_or_quoted (v : Value) :
    '@' ∉ v.literal.toList ∨ ∃ cs, v.literal.toList = cs ++ ['\''] := by
  cases v with
  | null => exact .inl (by decide)
  | bool b => exact .inl (by cases b <;> decide)
  | int i => exact .inl (sign_notMem_toString _)
  | float x => exact .inl (sign_notMem_ofFloat x)
  | text s => exact .inr ⟨'\'' :: Text.doubled s.toList, toList_literal_text s⟩
  | dateTime t => exact .inr ⟨_, String.toList_ofList⟩

end Value

end EntityStore
