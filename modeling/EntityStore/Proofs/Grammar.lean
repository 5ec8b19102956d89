import EntityStore.Proofs.Keys
import EntityStore.Proofs.Reading

/-!
The grammar of the statements for a table. A text is taken apart into tokens, and the tokens into a
command; lists have at least one item, and an insert has as many values as columns. The statements
of a layout are read as what they were written for, but for one: where nothing but a generated key
is stored there is nothing to insert, and the text for it is no command.
-/

namespace EntityStore.Sql

/-! ### Tokens -/

inductive Token where
  | word (w : String)
  /-- A name between brackets. -/
  | name (n : String)
  | parameter (p : String)
  | comma
  | opening
  | closing
  | equals
  /-- What follows a semicolon. -/
  | rest (text : String)
deriving DecidableEq

/-- What a scan is in. -/
inductive Lexing where
  | between
  /-- A word or a parameter: the sort of token that it will be, and its characters so far. -/
  | part (sort : String → Token) (w : List Char)
  | name (n : List Char)
  | rest (text : List Char)

/-- A character of a word or of the name of a parameter: any but the space, the comma, round and
square brackets, the equals sign, the semicolon and the at sign. All others count, also quotes and
signs like `#`, `-` and `/`. So `@r#type`, the parameter of a field `r#type`, is one token here;
SQLite itself ends the parameter before the `#`. -/
def isNamePart (c : Char) : Bool := c ∉ [' ', ',', '(', ')', '=', '[', ']', ';', '@']

namespace Lexing

variable (sign : Char)

/-- A character that no word, name or parameter goes on with: the token that it is, if it is one,
and what the scan is in after it. -/
def start (c : Char) : List Token × Lexing :=
  if c = ' ' then ([], between)
  else if c = ',' then ([.comma], between)
  else if c = '(' then ([.opening], between)
  else if c = ')' then ([.closing], between)
  else if c = '=' then ([.equals], between)
  else if c = '[' then ([], name [])
  else if c = ';' then ([], rest [])
  else if c = sign then ([], part .parameter [])
  else ([], part .word [c])

/-- The tokens that end with a character, and what the scan is in after it. -/
def step (c : Char) : Lexing → List Token × Lexing
  | between => start sign c
  | part sort w =>
    if isNamePart c then ([], part sort (w ++ [c]))
    else (sort (.ofList w) :: (start sign c).1, (start sign c).2)
  | name n => if c = ']' then ([.name (.ofList n)], between) else ([], name (n ++ [c]))
  | rest text => ([], rest (text ++ [c]))

/-- The token that ends with the text. A bracket that is left open is a mistake. -/
def last : Lexing → Option (List Token)
  | between => some []
  | part sort w => some [sort (.ofList w)]
  | name _ => none
  | rest text => some [.rest (.ofList text)]

def run (s : Lexing) : List Char → Option (List Token)
  | [] => s.last
  | c :: cs => (run (step sign c s).2 cs).map ((step sign c s).1 ++ ·)

end Lexing

/-- The tokens of a text, where parameters have the sign. -/
def tokens (sign : Char) (text : String) : Option (List Token) :=
  Lexing.between.run sign text.toList

/-! ### Commands -/

/-- What a text asks of a table. -/
inductive Command where
  | select (columns : List String) (table : String)
  /-- `further` is what is to be done in the same batch. -/
  | insert (table : String) (columns values : List String) (further : Option String)
  /-- Insert a row of defaults. -/
  | defaults (table : String) (further : Option String)
  /-- Set columns to parameters where a column has the value of a parameter. -/
  | update (table : String) (assignments : List (String × String)) (condition : String × String)
  | delete (table : String) (condition : String × String)
deriving DecidableEq

/-- At least one item, and commas between. -/
inductive Listed {α : Type} (item : α → List Token) : List α → List Token → Prop
  | one (a : α) : Listed item [a] (item a)
  | more (a : α) {as : List α} {ts : List Token} (h : Listed item as ts) :
    Listed item (a :: as) (item a ++ .comma :: ts)

def columnTokens (f : String) : List Token := [.name f]

def valueTokens (f : String) : List Token := [.parameter f]

/-- A column and the parameter that it is set to or compared with. -/
def equationTokens (p : String × String) : List Token := [.name p.1, .equals, .parameter p.2]

/-- The rest of a batch. -/
def furtherTokens (further : Option String) : List Token :=
  (further.map fun text => Token.rest text).toList

/-- The command is what the tokens say. -/
inductive Derives : Command → List Token → Prop
  | select {columns : List String} {table : String} {ts : List Token}
    (hcolumns : Listed columnTokens columns ts) :
    Derives (.select columns table) (.word "SELECT" :: (ts ++ [.word "FROM", .name table]))
  | insert {table : String} {columns values : List String} {further : Option String}
    {ts us : List Token} (hcolumns : Listed columnTokens columns ts)
    (hvalues : Listed valueTokens values us) (hlength : columns.length = values.length) :
    Derives (.insert table columns values further)
      (.word "INSERT" :: .word "INTO" :: .name table :: .opening :: (ts ++
        .closing :: .word "VALUES" :: .opening :: (us ++ .closing :: furtherTokens further)))
  | defaults {table : String} {further : Option String} :
    Derives (.defaults table further)
      (.word "INSERT" :: .word "INTO" :: .name table :: .word "DEFAULT" :: .word "VALUES" ::
        furtherTokens further)
  | update {table : String} {assignments : List (String × String)} {condition : String × String}
    {ts : List Token} (hassignments : Listed equationTokens assignments ts) :
    Derives (.update table assignments condition)
      (.word "UPDATE" :: .name table :: .word "SET" ::
        (ts ++ .word "WHERE" :: equationTokens condition))
  | delete {table : String} {condition : String × String} :
    Derives (.delete table condition)
      (.word "DELETE" :: .name table :: .word "WHERE" :: equationTokens condition)
  | deleteFrom {table : String} {condition : String × String} :
    Derives (.delete table condition)
      (.word "DELETE" :: .word "FROM" :: .name table :: .word "WHERE" :: equationTokens condition)

/-- The text is one of the command. -/
def Reads (sign : Char) (text : String) (c : Command) : Prop :=
  ∃ ts, tokens sign text = some ts ∧ Derives c ts

/-! ### The grammar is unambiguous -/

section Listed

variable {α : Type} {item : α → List Token} {as bs : List α} {ts us : List Token} {t : Token}

lemma Listed.ne_nil (h : Listed item as ts) : as ≠ [] := by
  cases h <;> simp

lemma Listed.eq_intercalate (h : Listed item as ts) : ts = [.comma].intercalate (as.map item) := by
  induction h with
  | one a => simp
  | @more a as ts h ih =>
    obtain ⟨b, bs, rfl⟩ := List.exists_cons_of_ne_nil h.ne_nil
    rw [List.map_cons, List.map_cons, List.intercalate_cons_cons, ih]
    simp

lemma listed_intercalate (h : as ≠ []) : Listed item as ([.comma].intercalate (as.map item)) := by
  induction as with
  | nil => exact absurd rfl h
  | cons a as ih =>
    rcases as with _ | ⟨b, bs⟩
    · simpa using Listed.one a
    · have hrest := Listed.more a (ih (by simp))
      rw [List.map_cons, List.map_cons, List.intercalate_cons_cons]
      simpa using hrest

/-- What no item has and is no comma is not in a list of items. -/
lemma Listed.notMem (h : Listed item as ts) (ht : ∀ a, t ∉ item a) (hcomma : t ≠ .comma) :
    t ∉ ts := by
  induction h with
  | one a => exact ht a
  | more a h ih => simp [ht a, hcomma, ih]

/-- A list is read in one way. -/
lemma Listed.unique (h : Listed item as ts) (h' : Listed item bs ts)
    (hcomma : ∀ a, Token.comma ∉ item a) (hitem : Function.Injective item) : as = bs := by
  have hsplit : ∀ {cs}, Listed item cs ts → ts.splitOn .comma = cs.map item := by
    intro cs h
    rw [h.eq_intercalate]
    refine List.splitOn_intercalate _ (fun l hl => ?_) (by simp [h.ne_nil])
    obtain ⟨a, -, rfl⟩ := List.mem_map.mp hl
    exact hcomma a
  exact List.map_injective_iff.mpr hitem ((hsplit h).symm.trans (hsplit h'))

end Listed

section Unique

variable {columns values : List String} {assignments : List (String × String)} {t : Token}
  {ts : List Token}

lemma Listed.unique_columns {columns' : List String} (h : Listed columnTokens columns ts)
    (h' : Listed columnTokens columns' ts) : columns = columns' :=
  h.unique h' (by simp [columnTokens]) fun a b hab => by simpa [columnTokens] using hab

lemma Listed.unique_values {values' : List String} (h : Listed valueTokens values ts)
    (h' : Listed valueTokens values' ts) : values = values' :=
  h.unique h' (by simp [valueTokens]) fun a b hab => by simpa [valueTokens] using hab

lemma equationTokens_injective : Function.Injective equationTokens := by
  rintro ⟨a, a'⟩ ⟨b, b'⟩ h
  simpa [equationTokens] using h

lemma Listed.unique_assignments {assignments' : List (String × String)}
    (h : Listed equationTokens assignments ts) (h' : Listed equationTokens assignments' ts) :
    assignments = assignments' :=
  h.unique h' (by simp [equationTokens]) equationTokens_injective

lemma furtherTokens_injective : Function.Injective furtherTokens := by
  intro a b h
  cases a <;> cases b <;> simp [furtherTokens] at h ⊢
  exact h

/-- Where something stands for the first time, a list falls into two parts in one way. -/
lemma append_cons_inj {α : Type} {xs ys zs us : List α} {a : α} (hx : a ∉ xs) (hy : a ∉ ys)
    (h : xs ++ a :: zs = ys ++ a :: us) : xs = ys ∧ zs = us := by
  rcases List.append_eq_append_iff.mp h with ⟨_ | ⟨b, bs⟩, rfl, hrest⟩ | ⟨_ | ⟨b, bs⟩, rfl, hrest⟩
  · simpa using hrest
  · obtain ⟨rfl, -⟩ := List.cons.inj hrest
    simp at hy
  · simpa [eq_comm] using hrest
  · obtain ⟨rfl, -⟩ := List.cons.inj hrest
    simp at hx

lemma Listed.notMem_columns (h : Listed columnTokens columns ts) (ht : ∀ n, t ≠ .name n)
    (hcomma : t ≠ .comma) : t ∉ ts :=
  h.notMem (by simpa [columnTokens] using ht) hcomma

lemma Listed.notMem_values (h : Listed valueTokens values ts) (ht : ∀ p, t ≠ .parameter p)
    (hcomma : t ≠ .comma) : t ∉ ts :=
  h.notMem (by simpa [valueTokens] using ht) hcomma

lemma Listed.word_notMem_assignments (h : Listed equationTokens assignments ts) (w : String) :
    .word w ∉ ts :=
  h.notMem (by simp [equationTokens]) (by simp)

/-- Tokens are of one command at most. -/
lemma Derives.unique {c c' : Command} {us : List Token} (h : Derives c ts) (h' : Derives c' us)
    (heq : ts = us) : c = c' := by
  cases h <;> cases h' <;> simp only [List.cons.injEq, reduceCtorEq, Token.word.injEq,
    String.reduceEq, false_and, and_false, true_and] at heq
  case select.select hcolumns _ _ _ hcolumns' =>
    obtain ⟨rfl, htable⟩ := append_cons_inj (hcolumns.notMem_columns (by simp) (by simp))
      (hcolumns'.notMem_columns (by simp) (by simp)) heq
    rw [hcolumns.unique_columns hcolumns', Token.name.inj (List.cons.inj htable).1]
  case insert.insert hcolumns hvalues _ _ _ _ _ _ _ hcolumns' hvalues' _ =>
    obtain ⟨htable, heq⟩ := heq
    obtain ⟨rfl, hrest⟩ := append_cons_inj (hcolumns.notMem_columns (by simp) (by simp))
      (hcolumns'.notMem_columns (by simp) (by simp)) heq
    simp only [List.cons.injEq, true_and] at hrest
    obtain ⟨rfl, hfurther⟩ := append_cons_inj (hvalues.notMem_values (by simp) (by simp))
      (hvalues'.notMem_values (by simp) (by simp)) hrest
    rw [hcolumns.unique_columns hcolumns', hvalues.unique_values hvalues', Token.name.inj htable,
      furtherTokens_injective hfurther]
  case defaults.defaults =>
    rw [Token.name.inj heq.1, furtherTokens_injective heq.2]
  case update.update hassignments _ _ _ _ hassignments' =>
    obtain ⟨htable, heq⟩ := heq
    obtain ⟨rfl, hcondition⟩ := append_cons_inj (hassignments.word_notMem_assignments _)
      (hassignments'.word_notMem_assignments _) heq
    rw [hassignments.unique_assignments hassignments', Token.name.inj htable,
      equationTokens_injective hcondition]
  case delete.delete => rw [Token.name.inj heq.1, equationTokens_injective heq.2]
  case deleteFrom.deleteFrom => rw [Token.name.inj heq.1, equationTokens_injective heq.2]

end Unique

/-! ### Scans -/

namespace Lexing

variable {sign : Char} {cs : List Char}

/-- No word and no parameter goes on with the text. -/
def Halts (cs : List Char) : Prop := ∀ c ∈ cs.head?, isNamePart c = false

lemma halts_nil : Halts [] := by simp [Halts]

lemma halts_cons {c : Char} (h : isNamePart c = false) (cs : List Char) : Halts (c :: cs) := by
  simpa [Halts] using h

lemma run_cons (c : Char) : between.run sign (c :: cs) =
    ((start sign c).2.run sign cs).map ((start sign c).1 ++ ·) := rfl

lemma run_space : between.run sign (' ' :: cs) = between.run sign cs := by
  simp [run_cons, start]

lemma run_comma : between.run sign (',' :: cs) = (between.run sign cs).map (.comma :: ·) := by
  simp [run_cons, start]

lemma run_opening : between.run sign ('(' :: cs) = (between.run sign cs).map (.opening :: ·) := by
  simp [run_cons, start]

lemma run_closing : between.run sign (')' :: cs) = (between.run sign cs).map (.closing :: ·) := by
  simp [run_cons, start]

lemma run_equals : between.run sign ('=' :: cs) = (between.run sign cs).map (.equals :: ·) := by
  simp [run_cons, start]

lemma run_rest : between.run sign (';' :: cs) = some [.rest (.ofList cs)] := by
  have hrest : ∀ text, (rest text).run sign cs = some [.rest (.ofList (text ++ cs))] := by
    induction cs with
    | nil => simp [run, last]
    | cons c cs ih => simp [run, step, ih]
  simp [run_cons, start, hrest]

/-- Up to the closing bracket it is all one name. -/
lemma run_name {n : String} (hn : ']' ∉ n.toList) :
    between.run sign ('[' :: (n.toList ++ ']' :: cs)) =
      (between.run sign cs).map (.name n :: ·) := by
  have hname : ∀ {ds : List Char} (m : List Char), ']' ∉ ds → (name m).run sign (ds ++ ']' :: cs) =
      (between.run sign cs).map (.name (.ofList (m ++ ds)) :: ·) := by
    intro ds
    induction ds with
    | nil => simp [run, step]
    | cons c ds ih =>
      intro m hds
      simp only [List.mem_cons, not_or] at hds
      simp [run, step, Ne.symm hds.1, ih (m ++ [c]) hds.2, Function.comp_def]
  simp [run_cons, start, hname [] hn, Function.comp_def]

/-- A word or a parameter goes on up to the first character that cannot be in one. -/
lemma run_part {w : List Char} (sort : String → Token) (v : List Char)
    (hw : ∀ c ∈ w, isNamePart c) (hcs : Halts cs) : (part sort v).run sign (w ++ cs) =
      (between.run sign cs).map (sort (.ofList (v ++ w)) :: ·) := by
  induction w generalizing v with
  | nil =>
    rcases cs with _ | ⟨c, cs⟩
    · simp [run, last]
    · have hc := hcs c rfl
      simp [run, step, hc, Function.comp_def]
  | cons c w ih =>
    have hc := hw c (by simp)
    simp [run, step, hc, ih (v ++ [c]) fun c' h => hw c' (by simp [h]), Function.comp_def]

lemma isNamePart_of_isAlpha {c : Char} (h : c.isAlpha) : isNamePart c := by
  have hother : [' ', ',', '(', ')', '=', '[', ']', ';', '@'].all (fun c => !c.isAlpha) := by
    decide
  simp only [isNamePart, decide_eq_true_eq]
  intro hc
  have hno := List.all_eq_true.mp hother c hc
  simp [h] at hno

/-- A word of letters, and the space after it. -/
lemma run_word {w : String} (hne : w ≠ "") (hw : w.toList.all Char.isAlpha)
    (hsign : sign.isAlpha = false) : between.run sign (w.toList ++ ' ' :: cs) =
      (between.run sign cs).map (.word w :: ·) := by
  obtain ⟨c, w', hcw⟩ := List.exists_cons_of_ne_nil (mt String.toList_eq_nil_iff.mp hne)
  have hparts : ∀ c' ∈ c :: w', isNamePart c' :=
    hcw ▸ fun c' h => isNamePart_of_isAlpha (List.all_eq_true.mp hw c' h)
  have hstart : start sign c = ([], part .word [c]) := by
    have hc := hparts c (by simp)
    have hletter : c ≠ sign := by
      rintro rfl
      simp [List.all_eq_true.mp hw c (by simp [hcw])] at hsign
    simp only [isNamePart, List.mem_cons, List.not_mem_nil, or_false, not_or,
      decide_eq_true_eq] at hc
    simp [start, hc, hletter]
  have hword : w = .ofList ([c] ++ w') := by
    rw [List.singleton_append, ← hcw, String.ofList_toList]
  rw [hcw, List.cons_append, run_cons, hstart,
    run_part .word [c] (fun c' h => hparts c' (by simp [h])) (halts_cons (by decide) _), ← hword,
    run_space]
  simp [Function.comp_def]

lemma run_parameter {p : String} (hp : ∀ c ∈ p.toList, isNamePart c) (hcs : Halts cs)
    (hsign : sign ∉ [' ', ',', '(', ')', '=', '[', ';']) :
    between.run sign (sign :: (p.toList ++ cs)) =
      (between.run sign cs).map (.parameter p :: ·) := by
  have hstart : start sign sign = ([], part .parameter []) := by
    simp only [List.mem_cons, List.not_mem_nil, or_false, not_or] at hsign
    simp [start, hsign]
  rw [run_cons, hstart, run_part .parameter [] hp hcs]
  simp [Function.comp_def]

end Lexing

/-! ### Written statements -/

/-- Names are written between brackets, and the sign of parameters cannot be taken for a letter or
for punctuation. -/
structure Dialect.Bracketed (q : Dialect) : Prop where
  opening : q.opening = '['
  closing : q.closing = ']'
  letter : q.sign.isAlpha = false
  sign : q.sign ∉ [' ', ',', '(', ')', '=', '[', ';']

namespace Statement

variable {q : Dialect} {table key : String} {columns : List String} {cs : List Char}

lemma text_select : (select table columns).text q =
    "SELECT " ++ list (columns.map q.quote) ++ " FROM " ++ q.quote table := rfl

lemma text_insert {identity : Option String} : (insert table columns identity).text q =
    "INSERT INTO " ++ q.quote table ++ " (" ++ list (columns.map q.quote) ++ ") VALUES (" ++
      list (columns.map q.parameter) ++ ")" ++
      match identity with
      | some query => "; " ++ query ++ ";"
      | none => "" := rfl

lemma text_update : (update table columns key).text q =
    "UPDATE " ++ q.quote table ++ " SET " ++ list (columns.map (equation q)) ++ " WHERE " ++
      equation q key := rfl

lemma text_delete : (delete table key).text q =
    (if q.deleteFrom then "DELETE FROM " else "DELETE ") ++ q.quote table ++ " WHERE " ++
      equation q key := rfl

/-- The tokens of a list. -/
def listTokens {α : Type} (item : α → List Token) (as : List α) : List Token :=
  [.comma].intercalate (as.map item)

lemma toList_list_cons (x y : String) (zs : List String) : (list (x :: y :: zs)).toList =
    x.toList ++ ',' :: ' ' :: (list (y :: zs)).toList := by
  simp [list, String.intercalate_cons_cons]

/-- A list is taken apart if its items are, one by one. -/
lemma run_list {α : Type} {sign : Char} {as : List α} {text : α → String} {item : α → List Token}
    (hitem : ∀ a ∈ as, ∀ cs, Lexing.Halts cs → Lexing.between.run sign ((text a).toList ++ cs) =
      (Lexing.between.run sign cs).map (item a ++ ·)) (hcs : Lexing.Halts cs) :
    Lexing.between.run sign ((list (as.map text)).toList ++ cs) =
      (Lexing.between.run sign cs).map (listTokens item as ++ ·) := by
  induction as with
  | nil => simp [list, listTokens]
  | cons a as ih =>
    rcases as with _ | ⟨b, bs⟩
    · simpa [list, listTokens] using hitem a (by simp) cs hcs
    · have hrest := ih fun x hx => hitem x (by simp [hx])
      have htokens : listTokens item (a :: b :: bs) =
          item a ++ .comma :: listTokens item (b :: bs) := by
        simp [listTokens, List.intercalate_cons_cons]
      rw [List.map_cons, List.map_cons, toList_list_cons, htokens, List.append_assoc,
        List.cons_append, List.cons_append, hitem a (by simp) _ (Lexing.halts_cons (by decide) _),
        Lexing.run_comma, Lexing.run_space, ← List.map_cons, hrest]
      simp [Function.comp_def]

lemma run_quote (hq : q.Bracketed) {f : String} (hf : ']' ∉ f.toList) :
    Lexing.between.run q.sign ((q.quote f).toList ++ cs) =
      (Lexing.between.run q.sign cs).map (columnTokens f ++ ·) := by
  rw [q.toList_quote, hq.opening, hq.closing, List.cons_append, List.append_assoc]
  exact Lexing.run_name hf

lemma closing_notMem {f : String} (hf : ∀ c ∈ f.toList, isNamePart c) : ']' ∉ f.toList :=
  fun h => absurd (hf _ h) (by decide)

lemma run_column (hq : q.Bracketed) {f : String} (hf : ∀ c ∈ f.toList, isNamePart c) :
    Lexing.between.run q.sign ((q.quote f).toList ++ cs) =
      (Lexing.between.run q.sign cs).map (columnTokens f ++ ·) :=
  run_quote hq (closing_notMem hf)

lemma run_value (hq : q.Bracketed) {f : String} (hf : ∀ c ∈ f.toList, isNamePart c)
    (hcs : Lexing.Halts cs) : Lexing.between.run q.sign ((q.parameter f).toList ++ cs) =
      (Lexing.between.run q.sign cs).map (valueTokens f ++ ·) := by
  have htext : (q.parameter f).toList = q.sign :: f.toList := by
    simp [Dialect.parameter, Char.toString_eq_singleton]
  rw [htext, List.cons_append]
  exact Lexing.run_parameter hf hcs hq.sign

lemma run_equation (hq : q.Bracketed) {f : String} (hf : ∀ c ∈ f.toList, isNamePart c)
    (hcs : Lexing.Halts cs) : Lexing.between.run q.sign ((equation q f).toList ++ cs) =
      (Lexing.between.run q.sign cs).map (equationTokens (f, f) ++ ·) := by
  have htext : (equation q f).toList ++ cs =
      (q.quote f).toList ++ ' ' :: '=' :: ' ' :: ((q.parameter f).toList ++ cs) := by
    simp [equation]
  rw [htext, run_column hq hf, Lexing.run_space, Lexing.run_equals, Lexing.run_space,
    run_value hq hf hcs]
  simp [Function.comp_def, columnTokens, valueTokens, equationTokens]

section Texts

variable (hq : q.Bracketed) (htable : ']' ∉ table.toList)
  (hcolumns : ∀ f ∈ columns, ∀ c ∈ f.toList, isNamePart c) (hkey : ∀ c ∈ key.toList, isNamePart c)

include hq

include htable in
lemma run_table : Lexing.between.run q.sign (q.quote table).toList = some [.name table] := by
  rw [← List.append_nil (q.quote table).toList, run_quote hq htable]
  rfl

include hkey in
lemma run_condition : Lexing.between.run q.sign (equation q key).toList =
    some (equationTokens (key, key)) := by
  rw [← List.append_nil (equation q key).toList, run_equation hq hkey Lexing.halts_nil]
  rfl

include hcolumns in
lemma run_columns (hcs : Lexing.Halts cs) :
    Lexing.between.run q.sign ((list (columns.map q.quote)).toList ++ cs) =
      (Lexing.between.run q.sign cs).map (listTokens columnTokens columns ++ ·) :=
  run_list (fun f hf _ _ => run_column hq (hcolumns f hf)) hcs

include hcolumns in
lemma run_values (hcs : Lexing.Halts cs) :
    Lexing.between.run q.sign ((list (columns.map q.parameter)).toList ++ cs) =
      (Lexing.between.run q.sign cs).map (listTokens valueTokens columns ++ ·) :=
  run_list (fun f hf _ hcs => run_value hq (hcolumns f hf) hcs) hcs

include hcolumns in
lemma run_assignments (hcs : Lexing.Halts cs) :
    Lexing.between.run q.sign ((list (columns.map (equation q))).toList ++ cs) =
      (Lexing.between.run q.sign cs).map
        (listTokens equationTokens (columns.map fun f => (f, f)) ++ ·) := by
  rw [run_list (fun f hf _ hcs => run_equation hq (hcolumns f hf) hcs) hcs, listTokens, listTokens,
    List.map_map]
  rfl

include htable hcolumns in
lemma tokens_select : tokens q.sign ((select table columns).text q) =
    some (.word "SELECT" :: (listTokens columnTokens columns ++ [.word "FROM", .name table])) := by
  have hselect : "SELECT ".toList = "SELECT".toList ++ [' '] := by decide
  have hfrom : " FROM ".toList = ' ' :: ("FROM".toList ++ [' ']) := by decide
  rw [tokens, text_select]
  simp only [String.toList_append, hselect, hfrom, List.append_assoc, List.cons_append,
    List.nil_append]
  rw [Lexing.run_word (by decide) (by decide) hq.letter,
    run_columns hq hcolumns (Lexing.halts_cons (by decide) _), Lexing.run_space,
    Lexing.run_word (by decide) (by decide) hq.letter, run_table hq htable]
  rfl

include htable hcolumns hkey in
lemma tokens_update : tokens q.sign ((update table columns key).text q) =
    some (.word "UPDATE" :: .name table :: .word "SET" ::
      (listTokens equationTokens (columns.map fun f => (f, f)) ++
        .word "WHERE" :: equationTokens (key, key))) := by
  have hupdate : "UPDATE ".toList = "UPDATE".toList ++ [' '] := by decide
  have hset : " SET ".toList = ' ' :: ("SET".toList ++ [' ']) := by decide
  have hwhere : " WHERE ".toList = ' ' :: ("WHERE".toList ++ [' ']) := by decide
  rw [tokens, text_update]
  simp only [String.toList_append, hupdate, hset, hwhere, List.append_assoc, List.cons_append,
    List.nil_append]
  rw [Lexing.run_word (by decide) (by decide) hq.letter, run_quote hq htable, Lexing.run_space,
    Lexing.run_word (by decide) (by decide) hq.letter,
    run_assignments hq hcolumns (Lexing.halts_cons (by decide) _), Lexing.run_space,
    Lexing.run_word (by decide) (by decide) hq.letter, run_condition hq hkey]
  rfl

include htable hkey in
lemma derives_delete : ∃ ts, tokens q.sign ((delete table key).text q) = some ts ∧
    Derives (.delete table (key, key)) ts := by
  have hfrom : "DELETE FROM ".toList = "DELETE".toList ++ ' ' :: ("FROM".toList ++ [' ']) := by
    decide
  have hdelete : "DELETE ".toList = "DELETE".toList ++ [' '] := by decide
  have hwhere : " WHERE ".toList = ' ' :: ("WHERE".toList ++ [' ']) := by decide
  have hrest : Lexing.between.run q.sign ((q.quote table).toList ++ (" WHERE ".toList ++
      (equation q key).toList)) =
        some (.name table :: .word "WHERE" :: equationTokens (key, key)) := by
    simp only [hwhere, List.append_assoc, List.cons_append, List.nil_append]
    rw [run_quote hq htable, Lexing.run_space, Lexing.run_word (by decide) (by decide) hq.letter,
      run_condition hq hkey]
    rfl
  rw [tokens, text_delete]
  rcases q.deleteFrom with _ | _
  · refine ⟨_, ?_, .delete⟩
    simp only [String.toList_append, hdelete, List.append_assoc, List.cons_append, List.nil_append,
      Bool.false_eq_true, if_false]
    rw [Lexing.run_word (by decide) (by decide) hq.letter, hrest]
    rfl
  · refine ⟨_, ?_, .deleteFrom⟩
    simp only [String.toList_append, hfrom, List.append_assoc, List.cons_append, List.nil_append,
      if_true]
    rw [Lexing.run_word (by decide) (by decide) hq.letter,
      Lexing.run_word (by decide) (by decide) hq.letter, hrest]
    rfl

include htable hcolumns in
lemma tokens_insert (identity : Option String) :
    tokens q.sign ((insert table columns identity).text q) =
      some (.word "INSERT" :: .word "INTO" :: .name table :: .opening ::
        (listTokens columnTokens columns ++ .closing :: .word "VALUES" :: .opening ::
          (listTokens valueTokens columns ++ .closing ::
            furtherTokens (identity.map fun query => " " ++ query ++ ";")))) := by
  have hinsert : "INSERT INTO ".toList = "INSERT".toList ++ ' ' :: ("INTO".toList ++ [' ']) := by
    decide
  have hopening : " (".toList = [' ', '('] := by decide
  have hvalues : ") VALUES (".toList = ')' :: ' ' :: ("VALUES".toList ++ [' ', '(']) := by decide
  have hclosing : ")".toList = [')'] := by decide
  -- After the values there is the end of the text, or a semicolon and whatever comes then.
  obtain ⟨tail, htail, hend⟩ : ∃ tail : String, (match identity with
      | some query => "; " ++ query ++ ";"
      | none => "") = tail ∧ Lexing.between.run q.sign tail.toList =
        some (furtherTokens (identity.map fun query => " " ++ query ++ ";")) := by
    rcases identity with _ | query
    · exact ⟨"", rfl, rfl⟩
    · have hfurther : ("; " ++ query ++ ";").toList = ';' :: (" " ++ query ++ ";").toList := by
        have hsemicolon : "; ".toList = ';' :: " ".toList := by decide
        simp only [String.toList_append, hsemicolon, List.cons_append]
      refine ⟨_, rfl, ?_⟩
      rw [hfurther, Lexing.run_rest, String.ofList_toList]
      rfl
  rw [tokens, text_insert, htail]
  simp only [String.toList_append, hinsert, hopening, hvalues, hclosing, List.append_assoc,
    List.cons_append, List.nil_append]
  rw [Lexing.run_word (by decide) (by decide) hq.letter,
    Lexing.run_word (by decide) (by decide) hq.letter, run_quote hq htable, Lexing.run_space,
    Lexing.run_opening, run_columns hq hcolumns (Lexing.halts_cons (by decide) _),
    Lexing.run_closing, Lexing.run_space, Lexing.run_word (by decide) (by decide) hq.letter,
    Lexing.run_opening, run_values hq hcolumns (Lexing.halts_cons (by decide) _),
    Lexing.run_closing, hend]
  rfl

end Texts

end Statement

/-! ### The statements of a layout -/

/-- Text that falls into the tokens of a command is one of that command alone. -/
lemma reads_iff {sign : Char} {text : String} {ts : List Token} {c c' : Command}
    (htokens : tokens sign text = some ts) (hc : Derives c ts) : Reads sign text c' ↔ c' = c := by
  constructor
  · rintro ⟨us, hus, hc'⟩
    rw [htokens] at hus
    cases hus
    exact hc'.unique hc rfl
  · rintro rfl
    exact ⟨ts, htokens, hc⟩

lemma Listed.exists_name {columns : List String} {ts : List Token}
    (h : Listed columnTokens columns ts) : ∃ n us, ts = .name n :: us := by
  cases h <;> exact ⟨_, _, rfl⟩

/-- Between the parentheses of an insert there is something. -/
lemma not_derives_insert_nil (c : Command) (table : String) (further : Option String) :
    ¬ Derives c (.word "INSERT" :: .word "INTO" :: .name table :: .opening :: .closing ::
      .word "VALUES" :: .opening :: .closing :: furtherTokens further) := by
  intro h
  generalize hts : Token.word "INSERT" :: .word "INTO" :: .name table :: .opening :: .closing ::
      .word "VALUES" :: .opening :: .closing :: furtherTokens further = ts at h
  cases h <;> simp only [List.cons.injEq, reduceCtorEq, Token.word.injEq, String.reduceEq,
    false_and, and_false, true_and] at hts
  case insert hcolumns _ _ =>
    obtain ⟨n, us, rfl⟩ := hcolumns.exists_name
    exact absurd hts.2 (by simp)

end EntityStore.Sql

namespace EntityStore

open Sql

/-! ### The fields of a layout -/

namespace Declaration

variable (d : Declaration)

def names : List String := d.fields.map Prod.fst

/-- The fields besides the key. -/
def others (key : String) : List String := d.names.filter (· ≠ key)

/-- The fields that an insert gives values to: the store itself gives one to a generated key. -/
def inserted (s : Schema) : List String := if s.generated then d.others s.key else d.names

lemma names_nodup : d.names.Nodup := (List.nodup_append.mp d.distinct).1

lemma others_perm {key : String} (h : key ∈ d.names) : (d.others key ++ [key]).Perm d.names := by
  have herase : d.others key = d.names.erase key := by
    rw [others, d.names_nodup.erase_eq_filter]
    refine List.filter_congr fun f _ => ?_
    rw [bne, beq_eq_decide, decide_not]
  rw [herase]
  exact (List.perm_append_singleton key _).trans (List.perm_cons_erase h).symm

variable {d} {s : Schema} {f : String}

lemma mem_inserted : f ∈ d.inserted s ↔ f ∈ d.names ∧ (s.generated → f ≠ s.key) := by
  unfold inserted others
  split
  · rename_i h
    simp [h]
  · rename_i h
    simp [h]

lemma inserted_nodup : (d.inserted s).Nodup := by
  unfold inserted
  split
  · exact d.names_nodup.filter _
  · exact d.names_nodup

end Declaration

namespace Schema

variable {s : Schema} {d : Declaration}

lemma IsOf.key_mem (h : s.IsOf d.type) : s.key ∈ d.names := by
  have hkey := h.fields.1
  rwa [← h.fields.2.1, h.persisted_eq] at hkey

lemma IsOf.persistedWithoutKey_eq (h : s.IsOf d.type) : s.persistedWithoutKey = d.others s.key := by
  rw [h.fields.2.2, Declaration.type, Declaration.others, Declaration.names, List.filter_map,
    List.filter_map, List.map_map]
  rfl

lemma IsOf.insertable_eq (h : s.IsOf d.type) : s.insertable = d.inserted s := by
  have hinserted : s.isInserted = fun x : Descriptor =>
      if s.generated then decide (x.role = .scalar) else decide (x.role ≠ .navigation) := by
    funext x
    unfold isInserted
    rcases x.role with _ | _ | _ <;> rcases s.generated with _ | _ <;> simp
  rw [insertable, hinserted, Declaration.inserted, Declaration.names, ← h.persistedWithoutKey_eq,
    ← h.persisted_eq]
  rcases s.generated with _ | _ <;> rfl

/-- There is nothing besides the key just where the key is the only field. -/
lemma IsOf.others_eq_nil (h : s.IsOf d.type) : d.others s.key = [] ↔ d.names = [s.key] := by
  rw [Declaration.others, List.filter_eq_nil_iff]
  constructor
  · intro hall
    by_contra hne
    rcases (d.names_nodup.ne_singleton_iff s.key).mp hne with hnil | ⟨f, hf, hkey⟩
    · have hmem := h.key_mem
      rw [hnil] at hmem
      cases hmem
    · exact absurd (hall f hf) (by simpa using hkey)
  · intro hsingle
    simp [hsingle]

/-- Only where there is nothing but a generated key is nothing inserted. -/
lemma IsOf.inserted_eq_nil (h : s.IsOf d.type) :
    d.inserted s = [] ↔ s.generated ∧ d.names = [s.key] := by
  unfold Declaration.inserted
  split
  · rename_i hgenerated
    rw [h.others_eq_nil]
    simp [hgenerated]
  · rename_i hgenerated
    simp [hgenerated, List.ne_nil_of_mem h.key_mem]

end Schema

/-! ### Reading the statements of a layout -/

namespace Sql

variable {d : Declaration} {s : Schema} {q : Dialect} {table : String}

/-- The rest of the batch with an insert. -/
def Dialect.further (q : Dialect) (s : Schema) : Option String :=
  if s.generated && q.identityBatched then some (" " ++ q.identity ++ ";") else none

lemma reads_select (hs : s.IsOf d.type) (hq : q.Bracketed) (htable : ']' ∉ table.toList)
    (hnames : ∀ f ∈ d.names, ∀ c ∈ f.toList, isNamePart c) (c : Command) :
    Reads q.sign ((Statements.of table s q).select.text q) c ↔ c = .select d.names table := by
  have hne : d.names ≠ [] := List.ne_nil_of_mem hs.key_mem
  have htext : (Statements.of table s q).select = .select table d.names :=
    congrArg (Statement.select table) hs.persisted_eq
  rw [htext]
  exact reads_iff (Statement.tokens_select hq htable hnames) (.select (listed_intercalate hne))

lemma reads_update (hs : s.IsOf d.type) (hq : q.Bracketed) (htable : ']' ∉ table.toList)
    (hnames : ∀ f ∈ d.names, ∀ c ∈ f.toList, isNamePart c) {u : Statement}
    (hu : (Statements.of table s q).update = some u) (c : Command) : Reads q.sign (u.text q) c ↔
      c = .update table ((d.others s.key).map fun f => (f, f)) (s.key, s.key) := by
  simp only [Statements.of, hs.persistedWithoutKey_eq] at hu
  split at hu
  · cases hu
  · rename_i hne
    cases hu
    have hmem : ∀ f ∈ d.others s.key, ∀ c ∈ f.toList, isNamePart c :=
      fun f hf => hnames f (List.mem_of_mem_filter hf)
    refine reads_iff (Statement.tokens_update hq htable hmem (hnames _ hs.key_mem))
      (.update (listed_intercalate ?_))
    simpa using hne

lemma reads_insert (hs : s.IsOf d.type) (hq : q.Bracketed) (htable : ']' ∉ table.toList)
    (hnames : ∀ f ∈ d.names, ∀ c ∈ f.toList, isNamePart c) (c : Command) :
    Reads q.sign ((Statements.of table s q).insert.text q) c ↔
      c = .insert table (d.inserted s) (d.inserted s) (q.further s) ∧
        ¬ (s.generated ∧ d.names = [s.key]) := by
  have hmem : ∀ f ∈ d.inserted s, ∀ c ∈ f.toList, isNamePart c :=
    fun f hf => hnames f (Declaration.mem_inserted.mp hf).1
  have hfurther : q.further s = Option.map (fun query => " " ++ query ++ ";")
      (if s.generated && q.identityBatched then some q.identity else none) := by
    unfold Dialect.further
    split <;> rfl
  have htokens := Statement.tokens_insert hq htable hmem
    (if s.generated && q.identityBatched then some q.identity else none)
  have hstatement : (Statements.of table s q).insert = .insert table (d.inserted s)
      (if s.generated && q.identityBatched then some q.identity else none) :=
    congrArg (Statement.insert table · _) hs.insertable_eq
  rw [← hfurther, ← hstatement] at htokens
  rw [← hs.inserted_eq_nil]
  by_cases hnil : d.inserted s = []
  · rw [hnil] at htokens
    simp only [hnil, not_true_eq_false, and_false, iff_false]
    rintro ⟨ts, hts, hderives⟩
    rw [htokens] at hts
    cases hts
    exact not_derives_insert_nil c table _ hderives
  · rw [reads_iff htokens (.insert (listed_intercalate hnil) (listed_intercalate hnil) rfl)]
    simp [hnil]

/-- Each statement of a layout is one command on its table, over its fields and its key, and no
other; but where nothing but a generated key is stored, the insert is none. There is no update where
nothing but the key is stored. -/
theorem statements_read (hs : s.IsOf d.type) (hq : q.Bracketed) (htable : ']' ∉ table.toList)
    (hnames : ∀ f ∈ d.names, ∀ c ∈ f.toList, isNamePart c) (c : Command) :
    (Reads q.sign ((Statements.of table s q).select.text q) c ↔ c = .select d.names table) ∧
      (∀ u, (Statements.of table s q).update = some u → (Reads q.sign (u.text q) c ↔
        c = .update table ((d.others s.key).map fun f => (f, f)) (s.key, s.key))) ∧
      ((Statements.of table s q).update = none ↔ d.names = [s.key]) ∧
      (Reads q.sign ((Statements.of table s q).delete.text q) c ↔
        c = .delete table (s.key, s.key)) ∧
      (Reads q.sign ((Statements.of table s q).insert.text q) c ↔
        c = .insert table (d.inserted s) (d.inserted s) (q.further s) ∧
          ¬ (s.generated ∧ d.names = [s.key])) := by
  refine ⟨reads_select hs hq htable hnames c, fun u hu => reads_update hs hq htable hnames hu c,
    ?_, ?_, reads_insert hs hq htable hnames c⟩
  · rw [← hs.others_eq_nil, ← hs.persistedWithoutKey_eq, Statements.of]
    simp
  · obtain ⟨ts, hts, hderives⟩ := Statement.derives_delete hq htable (hnames _ hs.key_mem)
    exact reads_iff hts hderives

end Sql

namespace Cloakroom

open Sql

lemma sqlite_bracketed : Dialect.sqlite.Bracketed := ⟨rfl, rfl, rfl, by decide⟩

lemma sqlServer_bracketed : Dialect.sqlServer.Bracketed := ⟨rfl, rfl, rfl, by decide⟩

def coat : Declaration where
  name := "Coat"
  fields := [("coatId", .int64), ("owner", .text)]

lemma coat_plain : ∀ f ∈ coat.names, ∀ c ∈ f.toList, isNamePart c := by
  have hall : coat.names.all fun f => f.toList.all isNamePart := by decide
  simpa using hall

def coats : Schema := ⟨"Coat", [⟨"coatId", some ⟨.integer, false⟩, .key true⟩,
  ⟨"owner", some ⟨.text, false⟩, .scalar⟩], "coatId", true⟩

lemma coats_isOf : coats.IsOf coat.type := ⟨some "coatId", none, rfl⟩

theorem coats_read :
    (Statements.of "Coat" coats .sqlServer).insert.text .sqlServer =
      "INSERT INTO [Coat] ([owner]) VALUES (@owner); SELECT CAST(SCOPE_IDENTITY() AS INT);" ∧
    Reads '@' ((Statements.of "Coat" coats .sqlServer).insert.text .sqlServer)
      (.insert "Coat" ["owner"] ["owner"] (some " SELECT CAST(SCOPE_IDENTITY() AS INT);")) ∧
    Reads '@' ((Statements.of "Coat" coats .sqlServer).select.text .sqlServer)
      (.select ["coatId", "owner"] "Coat") := by
  have htable : ']' ∉ "Coat".toList := by decide
  have hread := statements_read coats_isOf sqlServer_bracketed htable coat_plain
  exact ⟨rfl, (hread _).2.2.2.2.mpr ⟨rfl, by decide⟩, (hread _).1.mpr rfl⟩

/-- Of a key there is nothing but the number that it is given. -/
def key : Declaration where
  name := "Key"
  fields := [("id", .int64)]

def keys : Schema := ⟨"Key", [⟨"id", some ⟨.integer, false⟩, .key true⟩], "id", true⟩

/-- A key is inserted with a text that is no command. -/
theorem keys_not_inserted : keys.IsOf key.type ∧ Dialect.sqlite.Bracketed ∧
    (Statements.of "Key" keys .sqlite).insert.text .sqlite = "INSERT INTO [Key] () VALUES ()" ∧
    ∀ c, ¬ Reads '@' ((Statements.of "Key" keys .sqlite).insert.text .sqlite) c := by
  have hkeys : keys.IsOf key.type := ⟨some "id", none, rfl⟩
  have hnames : ∀ f ∈ key.names, ∀ c ∈ f.toList, isNamePart c := by
    have hall : key.names.all fun f => f.toList.all isNamePart := by decide
    simpa using hall
  have htable : ']' ∉ "Key".toList := by decide
  refine ⟨hkeys, sqlite_bracketed, rfl, fun c h => ?_⟩
  exact ((reads_insert hkeys sqlite_bracketed htable hnames c).mp h).2 ⟨rfl, rfl⟩

end Cloakroom

end EntityStore
