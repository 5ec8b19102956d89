import EntityStore.Proofs.Agreement
import EntityStore.Proofs.Placeholders

/-!
What a match becomes when it is compiled: a comparison by `LIKE` with the text of the pattern
between wildcards. The text is bound as it is, so a wildcard in it is a wildcard to the database,
where in memory it is a character like any other. Whatever matches in memory is like the parameter;
the converse holds for the patterns without wildcards and for no others.
-/

namespace EntityStore

open Sql

namespace Sql

/-- The characters that do not stand for themselves in a pattern. -/
def isWildcard (c : Char) : Bool := c = '%' || c = '_'

/-- A text is like a pattern: `%` stands for any run of characters, `_` for any one character, and
every other character for itself. -/
inductive Like : List Char → List Char → Prop
  | nil : Like [] []
  | run {p t : List Char} (s : List Char) (rest : Like p t) : Like ('%' :: p) (s ++ t)
  | any {p t : List Char} (c : Char) (rest : Like p t) : Like ('_' :: p) (c :: t)
  | same {p t : List Char} {c : Char} (hc : isWildcard c = false) (rest : Like p t) :
    Like (c :: p) (c :: t)

namespace Like

variable {p q s t : List Char}

lemma append (hp : Like p s) (hq : Like q t) : Like (p ++ q) (s ++ t) := by
  induction hp with
  | nil => exact hq
  | run u _ ih =>
    rw [List.append_assoc]
    exact .run u ih
  | any c _ ih => exact .any c ih
  | same hc _ ih => exact .same hc ih

/-- A text is like two patterns in a row just when it falls into a part like each. The induction is
on the first pattern; its wildcards take from the text what they stand for. -/
lemma append_iff : Like (p ++ q) t ↔ ∃ a b, t = a ++ b ∧ Like p a ∧ Like q b := by
  refine ⟨fun h => ?_, fun ⟨a, b, ht, ha, hb⟩ => ht ▸ ha.append hb⟩
  induction p generalizing t with
  | nil => exact ⟨[], t, rfl, .nil, h⟩
  | cons c p ih =>
    cases h with
    | run s rest =>
      obtain ⟨a, b, rfl, ha, hb⟩ := ih rest
      exact ⟨s ++ a, b, (List.append_assoc s a b).symm, .run s ha, hb⟩
    | any c rest =>
      obtain ⟨a, b, rfl, ha, hb⟩ := ih rest
      exact ⟨c :: a, b, rfl, .any c ha, hb⟩
    | same hc rest =>
      obtain ⟨a, b, rfl, ha, hb⟩ := ih rest
      exact ⟨c :: a, b, rfl, .same hc ha, hb⟩

/-- Every text is like the wildcard for a run. -/
lemma percent (t : List Char) : Like ['%'] t := by
  have h := Like.run t .nil
  rwa [List.append_nil] at h

lemma nil_iff : Like [] t ↔ t = [] := by
  refine ⟨fun h => ?_, fun h => h ▸ .nil⟩
  cases h
  rfl

/-- Taken as a text, a pattern is like itself. -/
lemma refl (p : List Char) : Like p p := by
  induction p with
  | nil => exact .nil
  | cons c p ih =>
    by_cases hrun : c = '%'
    · exact hrun ▸ .run ['%'] ih
    · by_cases hany : c = '_'
      · exact hany ▸ .any '_' ih
      · exact .same (by simp [isWildcard, hrun, hany]) ih

/-- A pattern without wildcards has no other text. -/
lemma eq_of_plain (hp : ∀ c ∈ p, isWildcard c = false) (h : Like p t) : t = p := by
  induction h with
  | nil => rfl
  | run _ _ _ => exact absurd (hp '%' (by simp)) (by decide)
  | any _ _ _ => exact absurd (hp '_' (by simp)) (by decide)
  | same _ _ ih => rw [ih fun c hc => hp c (List.mem_cons_of_mem _ hc)]

/-- What a pattern character stands for, at its plainest: nothing for a run, a letter for any
character. -/
def plainest (c : Char) : List Char := if c = '%' then [] else if c = '_' then ['a'] else [c]

/-- Every pattern has a text without wildcards. -/
lemma plainest_like (p : List Char) : Like p (p.flatMap plainest) := by
  induction p with
  | nil => exact .nil
  | cons c p ih =>
    rw [List.flatMap_cons, plainest]
    split
    · rename_i hc
      exact hc ▸ .run [] ih
    · split
      · rename_i hc
        exact hc ▸ .any 'a' ih
      · exact .same (by simp [isWildcard, *]) ih

lemma isWildcard_plainest (p : List Char) : ∀ c ∈ p.flatMap plainest, isWildcard c = false := by
  intro c hc
  obtain ⟨b, -, hb⟩ := List.mem_flatMap.mp hc
  unfold plainest at hb
  split at hb
  · cases hb
  · split at hb <;> obtain rfl := List.mem_singleton.mp hb
    · decide
    · simp [isWildcard, *]

end Like

end Sql

/-! ### Parts of a text -/

lemma Text.occurs_iff {pattern text : List Char} :
    Text.occurs pattern text = true ↔ pattern <:+: text := by
  induction text with
  | nil => simp [occurs]
  | cons c text ih =>
    rw [occurs, Bool.or_eq_true, List.isPrefixOf_iff_prefix, ih, List.infix_cons_iff]

namespace Matching

variable {how : Matching} {t p : List Char}

/-- A match asks for the pattern with just that before and after it which its wildcards stand
for. -/
lemma holds_iff : how.holds t p = true ↔
    ∃ a b, t = a ++ p ++ b ∧ Like how.wildcards.1.toList a ∧ Like how.wildcards.2.toList b := by
  cases how with
  | contains =>
    refine Text.occurs_iff.trans ⟨fun ⟨a, b, h⟩ => ⟨a, b, h.symm, .percent a, .percent b⟩, ?_⟩
    rintro ⟨a, b, h, -, -⟩
    exact ⟨a, b, h.symm⟩
  | startsWith =>
    refine List.isPrefixOf_iff_prefix.trans ⟨fun ⟨b, h⟩ => ⟨[], b, h.symm, .nil, .percent b⟩, ?_⟩
    rintro ⟨a, b, h, ha, -⟩
    obtain rfl := Like.nil_iff.mp ha
    exact ⟨b, h.symm⟩
  | endsWith =>
    refine List.isSuffixOf_iff_suffix.trans
      ⟨fun ⟨a, h⟩ => ⟨a, [], by simp [h], .percent a, .nil⟩, ?_⟩
    rintro ⟨a, b, h, -, hb⟩
    obtain rfl := Like.nil_iff.mp hb
    exact ⟨a, by simp [h]⟩

lemma holds_self (how : Matching) (t : List Char) : how.holds t t = true := by
  cases how with
  | contains => exact Text.occurs_iff.mpr List.infix_rfl
  | startsWith => exact List.isPrefixOf_iff_prefix.mpr List.prefix_rfl
  | endsWith => exact List.isSuffixOf_iff_suffix.mpr List.suffix_rfl

lemma subset_of_holds (h : how.holds t p = true) : p ⊆ t := by
  obtain ⟨a, b, rfl, -, -⟩ := holds_iff.mp h
  intro c hc
  simp [hc]

/-- The pattern that a match binds for a text. -/
def pattern (how : Matching) (p : List Char) : List Char :=
  how.wildcards.1.toList ++ p ++ how.wildcards.2.toList

/-- A text is like the bound pattern when something like the text of the pattern matches in it. -/
lemma like_pattern_iff : Like (how.pattern p) t ↔ ∃ s, Like p s ∧ how.holds t s = true := by
  constructor
  · intro h
    obtain ⟨s, b, rfl, hs, hb⟩ := Like.append_iff.mp h
    obtain ⟨a, r, rfl, ha, hr⟩ := Like.append_iff.mp hs
    exact ⟨r, hr, holds_iff.mpr ⟨a, b, rfl, ha, hb⟩⟩
  · rintro ⟨s, hs, h⟩
    obtain ⟨a, b, rfl, ha, hb⟩ := holds_iff.mp h
    exact (ha.append hs).append hb

lemma like_of_holds (h : how.holds t p = true) : Like (how.pattern p) t :=
  like_pattern_iff.mpr ⟨p, .refl p, h⟩

/-- Pattern and text agree everywhere for just the patterns without wildcards. Any other one is
refuted by its plainest text, in which its wildcards do not occur. -/
lemma like_iff_holds_iff : (∀ t, Like (how.pattern p) t ↔ how.holds t p = true) ↔
    ∀ c ∈ p, isWildcard c = false := by
  constructor
  · intro h c hc
    have hlike := like_pattern_iff.mpr ⟨_, Like.plainest_like p, how.holds_self _⟩
    exact Like.isWildcard_plainest p c (subset_of_holds ((h _).mp hlike) hc)
  · intro hp t
    refine ⟨fun h => ?_, like_of_holds⟩
    obtain ⟨s, hs, h⟩ := like_pattern_iff.mp h
    rwa [hs.eq_of_plain hp] at h

lemma decide_text (how : Matching) (t s : String) :
    how.decide (.text t) (.text s) = .ok (.bool true) ↔ how.holds t.toList s.toList = true := by
  rw [decide, Except.ok.injEq, Value.bool.injEq]

end Matching

namespace Sql

variable {d : Dialect} {T : EntityType} {e : Entity} {how : Matching} {x p : Expr}

/-- The last parameter of a compiled match is the one its pattern is bound to. -/
lemma pattern_of_compile {f : Fragment} {v : Value} (h : compile d T (.matching how x p) = .ok f)
    (hp : p.eval T e = .ok v) : f.params.getLast?.map Parameter.value = some (how.wrap v) := by
  rcases hc : Compiled.ofExpr d T (.matching how x p) true 0 with err | c
  · rw [compile, hc] at h; cases h
  · rw [compile, hc] at h
    cases h
    have hvalues := (Compiled.linesUp_ofExpr hc).values
    obtain ⟨cx, -, hc⟩ := except_bind_eq_ok.mp hc
    obtain ⟨w, hw, -⟩ := except_bind_eq_ok.mp hc
    have hv : w = v := by
      cases p with
      | constant u => cases hw; cases hp; rfl
      | member record name => exact Except.ok.inj (hw.symm.trans hp)
      | _ => cases hw
    rw [← List.getLast?_map, Compiled.values_params_fragment, hvalues, Expr.values,
      Compiled.values_of_patternValue hw, hv, List.map_singleton, List.getLast?_concat]

/-- **A match is compiled to a wider one.** The last parameter is a pattern that every text is like
which matches in memory, and with it every text in which something like the text of the pattern
matches, nothing else. The two agree on all texts exactly when that text has no wildcards. -/
theorem compile_matching {f : Fragment} {s : String}
    (h : compile d T (.matching how x p) = .ok f) (hp : p.eval T e = .ok (.text s)) :
    ∃ w : String, f.params.getLast?.map Parameter.value = some (.text w) ∧
      (∀ t : String, how.decide (.text t) (.text s) = .ok (.bool true) → Like w.toList t.toList) ∧
      (∀ t : String, Like w.toList t.toList ↔
        ∃ r : String, Like s.toList r.toList ∧ how.decide (.text t) (.text r) = .ok (.bool true)) ∧
      ((∀ t : String, Like w.toList t.toList ↔
        how.decide (.text t) (.text s) = .ok (.bool true)) ↔
          ∀ c ∈ s.toList, isWildcard c = false) := by
  have hpattern : (how.wildcards.1 ++ s ++ how.wildcards.2).toList = how.pattern s.toList := by
    simp [Matching.pattern]
  refine ⟨how.wildcards.1 ++ s ++ how.wildcards.2, pattern_of_compile h hp, ?_⟩
  simp only [hpattern, Matching.decide_text]
  refine ⟨fun t => Matching.like_of_holds, fun t => ?_, ?_⟩
  · rw [Matching.like_pattern_iff]
    exact ⟨fun ⟨r, hr⟩ => ⟨String.ofList r, by simpa using hr⟩, fun ⟨r, hr⟩ => ⟨r.toList, hr⟩⟩
  · rw [← Matching.like_iff_holds_iff]
    exact ⟨fun h t => by simpa using h (String.ofList t), fun h t => h t.toList⟩

end Sql

namespace Club

/-- Called by a text that contains another. -/
def named (part : String) : Expr :=
  .matching .contains (.field "name") (.constant (.text part))

/-- A part without wildcards is found on both sides alike. -/
theorem named_agrees : ∃ f, compile .sqlServer member.type (named "nn") = .ok f ∧
    f.params.map Parameter.value = [.text "%nn%"] ∧
    ∀ t : String, Like "%nn%".toList t.toList ↔
      Matching.contains.decide (.text t) (.text "nn") = .ok (.bool true) := by
  obtain ⟨f, hf, hparams⟩ : ∃ f, compile .sqlServer member.type (named "nn") = .ok f ∧
      f.params.map Parameter.value = [.text "%nn%"] := ⟨_, rfl, rfl⟩
  obtain ⟨w, hw, -, -, hagree⟩ := compile_matching (e := bob) hf rfl
  rw [← List.getLast?_map, hparams] at hw
  cases hw
  exact ⟨f, hf, hparams, hagree.mpr (by simp [isWildcard])⟩

/-- Bob's name is like the parameter bound for an underscore, which is not in it. -/
theorem underscore_matches : ∃ f, compile .sqlServer member.type (named "_") = .ok f ∧
    f.params.map Parameter.value = [.text "%_%"] ∧
    member.type.read bob "name" = .ok (.text "Bob") ∧ Like "%_%".toList "Bob".toList ∧
    Matching.contains.decide (.text "Bob") (.text "_") = .ok (.bool false) ∧
    (named "_").satisfied member.type bob = .ok false := by
  have hlike : Like "%_%".toList "Bob".toList := .run [] (.any 'B' (.percent ['o', 'b']))
  exact ⟨_, rfl, rfl, rfl, hlike, rfl, rfl⟩

end Club

end EntityStore
