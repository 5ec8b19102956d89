import EntityStore.Proofs.Executed
import EntityStore.Proofs.Grammar

/-!
Statements and the parameters that go with them. The text of a statement is written once for a
table, and its parameters are collected anew for each write; in each write both speak of the same
fields, and a value goes where the field of its name stands.
-/

namespace EntityStore

open Fallible Sql

/-! ### Placeholders -/

namespace Sql

/-- The names after the signs of placeholders in a text, from left to right. -/
def placeholders : List Char → List String
  | [] => []
  | c :: cs =>
    if c = '@' then .ofList (cs.takeWhile isNamePart) :: placeholders cs else placeholders cs

section Placeholders

variable {cs ds : List Char}

@[simp] lemma placeholders_cons_of_ne {c : Char} (h : c ≠ '@') (cs : List Char) :
    placeholders (c :: cs) = placeholders cs := if_neg h

lemma placeholders_append (h : '@' ∉ cs) : placeholders (cs ++ ds) = placeholders ds := by
  induction cs with
  | nil => rfl
  | cons c cs ih =>
    simp only [List.mem_cons, not_or] at h
    rw [List.cons_append, placeholders_cons_of_ne (Ne.symm h.1), ih h.2]

lemma takeWhile_isNamePart (hcs : ∀ c ∈ cs, isNamePart c) (hds : Lexing.Halts ds) :
    (cs ++ ds).takeWhile isNamePart = cs := by
  rw [List.takeWhile_append_of_pos hcs]
  rcases ds with _ | ⟨c, ds⟩
  · simp
  · simp [hds c rfl]

lemma sign_notMem {f : String} (hf : ∀ c ∈ f.toList, isNamePart c) : '@' ∉ f.toList :=
  fun h => absurd (hf _ h) (by decide)

lemma placeholders_parameter {f : String} (hf : ∀ c ∈ f.toList, isNamePart c)
    (hds : Lexing.Halts ds) : placeholders ('@' :: (f.toList ++ ds)) = f :: placeholders ds := by
  rw [placeholders, if_pos rfl, takeWhile_isNamePart hf hds, String.ofList_toList,
    placeholders_append (sign_notMem hf)]

/-- The placeholders of a list are those of its items. -/
lemma placeholders_list {fields : List String} {text : String → String}
    {names : String → List String} (hitem : ∀ f ∈ fields, ∀ cs, Lexing.Halts cs →
      placeholders ((text f).toList ++ cs) = names f ++ placeholders cs) (hcs : Lexing.Halts cs) :
    placeholders ((Statement.list (fields.map text)).toList ++ cs) =
      fields.flatMap names ++ placeholders cs := by
  induction fields with
  | nil => simp [Statement.list]
  | cons f fields ih =>
    rcases fields with _ | ⟨g, gs⟩
    · simpa [Statement.list] using hitem f (by simp) cs hcs
    · have hrest := ih fun x hx => hitem x (by simp [hx])
      rw [List.map_cons, List.map_cons, Statement.toList_list_cons, List.append_assoc,
        List.cons_append, List.cons_append, hitem f (by simp) _ (Lexing.halts_cons (by decide) _),
        placeholders_cons_of_ne (by decide), placeholders_cons_of_ne (by decide), ← List.map_cons,
        hrest]
      simp only [List.flatMap_cons, List.append_assoc]

end Placeholders

/-! ### Texts -/

def bracketed (name : String) : String := "[" ++ name ++ "]"

/-- A column beside the parameter of its name. -/
def matched (field : String) : String := bracketed field ++ " = " ++ ("@" ++ field)

/-- Insert one parameter into each column. -/
def insertText (table : String) (columns : List String) : String :=
  "INSERT INTO " ++ bracketed table ++ " (" ++ ", ".intercalate (columns.map bracketed) ++
    ") VALUES (" ++ ", ".intercalate (columns.map fun f => "@" ++ f) ++ ")"

def updateText (table : String) (columns : List String) (key : String) : String :=
  "UPDATE " ++ bracketed table ++ " SET " ++ ", ".intercalate (columns.map matched) ++ " WHERE " ++
    matched key

def deleteText (q : Dialect) (table key : String) : String :=
  (if q.deleteFrom then "DELETE FROM " else "DELETE ") ++ bracketed table ++ " WHERE " ++
    matched key

section Texts

variable {table key : String} {columns : List String} {cs : List Char}

lemma placeholders_bracketed (h : '@' ∉ table.toList) :
    placeholders ((bracketed table).toList ++ cs) = placeholders cs := by
  refine placeholders_append ?_
  simp only [bracketed, String.toList_append, List.mem_append, not_or]
  exact ⟨⟨by decide, h⟩, by decide⟩

lemma placeholders_matched {f : String} (hf : ∀ c ∈ f.toList, isNamePart c)
    (hcs : Lexing.Halts cs) : placeholders ((matched f).toList ++ cs) = [f] ++ placeholders cs := by
  have hsign : "@".toList = ['@'] := by decide
  have hequals : '@' ∉ " = ".toList := by decide
  simp only [matched, String.toList_append, List.append_assoc, hsign, List.cons_append,
    List.nil_append]
  rw [placeholders_bracketed (sign_notMem hf), placeholders_append hequals,
    placeholders_parameter hf hcs]

lemma placeholders_columns (hcolumns : ∀ f ∈ columns, ∀ c ∈ f.toList, isNamePart c)
    (hcs : Lexing.Halts cs) :
    placeholders ((", ".intercalate (columns.map bracketed)).toList ++ cs) = placeholders cs := by
  have hitem : ∀ f ∈ columns, ∀ cs, Lexing.Halts cs →
      placeholders ((bracketed f).toList ++ cs) = (fun _ => []) f ++ placeholders cs :=
    fun f hf cs _ => placeholders_bracketed (sign_notMem (hcolumns f hf))
  have hlist := placeholders_list hitem hcs
  rwa [List.flatMap_eq_nil_iff.mpr fun _ _ => rfl] at hlist

lemma placeholders_values (hcolumns : ∀ f ∈ columns, ∀ c ∈ f.toList, isNamePart c)
    (hcs : Lexing.Halts cs) :
    placeholders ((", ".intercalate (columns.map fun f => "@" ++ f)).toList ++ cs) =
      columns ++ placeholders cs := by
  have hsign : "@".toList = ['@'] := by decide
  have hitem : ∀ f ∈ columns, ∀ cs, Lexing.Halts cs →
      placeholders (("@" ++ f).toList ++ cs) = [f] ++ placeholders cs := by
    intro f hf cs hcs
    simp only [String.toList_append, hsign, List.cons_append, List.nil_append]
    exact placeholders_parameter (hcolumns f hf) hcs
  have hlist := placeholders_list hitem hcs
  rwa [List.flatMap_singleton'] at hlist

lemma placeholders_assignments (hcolumns : ∀ f ∈ columns, ∀ c ∈ f.toList, isNamePart c)
    (hcs : Lexing.Halts cs) :
    placeholders ((", ".intercalate (columns.map matched)).toList ++ cs) =
      columns ++ placeholders cs := by
  have hitem : ∀ f ∈ columns, ∀ cs, Lexing.Halts cs →
      placeholders ((matched f).toList ++ cs) = [f] ++ placeholders cs :=
    fun f hf cs hcs => placeholders_matched (hcolumns f hf) hcs
  have hlist := placeholders_list hitem hcs
  rwa [List.flatMap_singleton'] at hlist

/-- An insert has the parameters of its columns, in their order. -/
lemma placeholders_insertText (htable : '@' ∉ table.toList)
    (hcolumns : ∀ f ∈ columns, ∀ c ∈ f.toList, isNamePart c) {tail : String}
    (htail : '@' ∉ tail.toList) :
    placeholders (insertText table columns ++ tail).toList = columns := by
  have hinto : '@' ∉ "INSERT INTO ".toList := by decide
  have hopening : '@' ∉ " (".toList := by decide
  have hvalues : ") VALUES (".toList = ')' :: " VALUES (".toList := by decide
  have hbetween : '@' ∉ ')' :: " VALUES (".toList := by decide
  have hclosing : ")".toList = [')'] := by decide
  have hend : placeholders (')' :: tail.toList) = [] := by
    rw [placeholders_cons_of_ne (by decide), ← List.append_nil tail.toList,
      placeholders_append htail]
    rfl
  unfold insertText
  simp only [String.toList_append, List.append_assoc]
  rw [hvalues, hclosing, List.cons_append, List.singleton_append, placeholders_append hinto,
    placeholders_bracketed htable, placeholders_append hopening,
    placeholders_columns hcolumns (Lexing.halts_cons (by decide) _), ← List.cons_append,
    placeholders_append hbetween, placeholders_values hcolumns (Lexing.halts_cons (by decide) _),
    hend, List.append_nil]

/-- An update has the parameters of its columns and that of the key. -/
lemma placeholders_updateText (htable : '@' ∉ table.toList)
    (hcolumns : ∀ f ∈ columns, ∀ c ∈ f.toList, isNamePart c)
    (hkey : ∀ c ∈ key.toList, isNamePart c) :
    placeholders (updateText table columns key).toList = columns ++ [key] := by
  have hupdate : '@' ∉ "UPDATE ".toList := by decide
  have hset : '@' ∉ " SET ".toList := by decide
  have hwhere : " WHERE ".toList = ' ' :: "WHERE ".toList := by decide
  have hbetween : '@' ∉ ' ' :: "WHERE ".toList := by decide
  have hend := placeholders_matched hkey Lexing.halts_nil
  rw [List.append_nil] at hend
  unfold updateText
  simp only [String.toList_append, List.append_assoc, hwhere, List.cons_append]
  rw [placeholders_append hupdate, placeholders_bracketed htable, placeholders_append hset,
    placeholders_assignments hcolumns (Lexing.halts_cons (by decide) _), ← List.cons_append,
    placeholders_append hbetween, hend]
  rfl

lemma placeholders_deleteText (q : Dialect) (htable : '@' ∉ table.toList)
    (hkey : ∀ c ∈ key.toList, isNamePart c) :
    placeholders (deleteText q table key).toList = [key] := by
  have hdelete : '@' ∉ (if q.deleteFrom then "DELETE FROM " else "DELETE ").toList := by
    split <;> decide
  have hwhere : '@' ∉ " WHERE ".toList := by decide
  have hend := placeholders_matched hkey Lexing.halts_nil
  rw [List.append_nil] at hend
  unfold deleteText
  simp only [String.toList_append, List.append_assoc]
  rw [placeholders_append hdelete, placeholders_bracketed htable, placeholders_append hwhere, hend]
  rfl

end Texts

section Written

variable {q : Dialect} {table key : String} {columns : List String}

/-- Names in brackets, and parameters with the sign. -/
structure Dialect.Usual (q : Dialect) : Prop where
  opening : q.opening = '['
  closing : q.closing = ']'
  sign : q.sign = '@'

variable (hq : q.Usual)

include hq

lemma quote_eq : q.quote = bracketed := by
  funext name
  rw [Dialect.quote, hq.opening, hq.closing]
  rfl

lemma parameter_eq : q.parameter = fun f => "@" ++ f := by
  funext f
  rw [Dialect.parameter, hq.sign]
  rfl

lemma equation_eq : Statement.equation q = matched := by
  funext f
  rw [Statement.equation, quote_eq hq, parameter_eq hq]
  rfl

lemma insert_text : (Statement.insert table columns none).text q = insertText table columns := by
  rw [Statement.text_insert, quote_eq hq, parameter_eq hq]
  exact String.append_empty

lemma insert_text_batched (identity : String) :
    (Statement.insert table columns (some identity)).text q =
      insertText table columns ++ ("; " ++ identity ++ ";") := by
  rw [Statement.text_insert, quote_eq hq, parameter_eq hq]
  rfl

lemma update_text : (Statement.update table columns key).text q = updateText table columns key := by
  rw [Statement.text_update, quote_eq hq, equation_eq hq]
  rfl

lemma delete_text : (Statement.delete table key).text q = deleteText q table key := by
  rw [Statement.text_delete, quote_eq hq, equation_eq hq]
  rfl

end Written

/-- The placeholders in the statement are the names of its parameters, each name is that of one
parameter, and a parameter is bound to what the entity has in the field of its name. -/
structure Bound (T : EntityType) (e : Entity) (sql : String) (bindings : List Binding) : Prop where
  names : ((placeholders sql.toList).map fun f => "@" ++ f).Perm (bindings.map Prod.fst)
  nodup : (bindings.map Prod.fst).Nodup
  values : ∀ b ∈ bindings, ∃ f, b.1 = "@" ++ f ∧ T.read? e f = some b.2

lemma bound_of_notMem (T : EntityType) (e : Entity) {sql : String} (h : '@' ∉ sql.toList) :
    Bound T e sql [] := by
  have hnone : placeholders sql.toList = [] := by
    rw [← List.append_nil sql.toList, placeholders_append h]
    rfl
  exact ⟨by simp [hnone], List.nodup_nil, by simp⟩

/-- In each statement of the events the parameters are those of the text. -/
def AllBound (T : EntityType) (e : Entity) (events : List Event) : Prop :=
  ∀ c mode sql bindings ok, .statement c mode sql bindings ok ∈ events → Bound T e sql bindings

lemma allBound_singleton {T : EntityType} {e : Entity} {c sql : String} {mode : Mode}
    {bindings : List Binding} {ok : Bool} (h : Bound T e sql bindings) :
    AllBound T e [.statement c mode sql bindings ok] := by
  intro c' mode' sql' bindings' ok' hmem
  obtain ⟨-, -, rfl, rfl, -⟩ := Event.statement.inj (List.mem_singleton.mp hmem)
  exact h

end Sql

namespace SqlTable

variable {t : SqlTable} {d : Declaration} {e : Entity} {fields : List String}

/-- The parameters of declared fields are bound to what a well-typed entity has in them. -/
lemma exists_bindings (hq : t.dialect.Usual) (he : d.Fits e.scalars)
    (hfields : ∀ f ∈ fields, f ∈ d.names) (hnodup : fields.Nodup) :
    ∃ bindings, t.bindings d.type e fields = .ok bindings ∧
      ∀ sql : String, (placeholders sql.toList).Perm fields → Bound d.type e sql bindings := by
  have hread : ∀ f ∈ fields, ∃ v, d.type.read? e f = some v := by
    intro f hf
    obtain ⟨k, v, -, hv, -⟩ := he.lookup (hfields f hf)
    exact ⟨v, hv⟩
  refine ⟨fields.map fun f => ("@" ++ f, (d.type.read? e f).getD .null), ?_, fun sql hsql => ?_⟩
  · refine mapM_ok_of_forall₂ (List.forall₂_map_right_iff.mpr ?_)
    refine List.forall₂_same.mpr fun f hf => ?_
    obtain ⟨v, hv⟩ := hread f hf
    rw [EntityType.read, hv, ok_bind, parameter_eq hq]
    rfl
  · have hnames : (fields.map fun f => ("@" ++ f, (d.type.read? e f).getD .null)).map Prod.fst =
        fields.map fun f => "@" ++ f := by simp
    refine ⟨hnames ▸ hsql.map _, hnames ▸ hnodup.map fun f g h => ?_, fun b hb => ?_⟩
    · exact String.append_right_inj _ |>.mp h
    · obtain ⟨f, hf, rfl⟩ := List.mem_map.mp hb
      obtain ⟨v, hv⟩ := hread f hf
      exact ⟨f, rfl, by rw [hv]; rfl⟩

end SqlTable

/-! ### Writes -/

/-- What an insert leaves in the log of its connection: the statement, and where the key is
generated the query for it, as part of the text or as the next call. `ok` says whether the entity
was created. -/
inductive Creates (connection : String) (q : Dialect) (sql : String) (bindings : List Binding) :
    (generated ok : Bool) → List Event → Prop
  | natural (ok : Bool) :
    Creates connection q sql bindings false ok [.statement connection .exec sql bindings ok]
  | batched {ok sent : Bool} (hbatched : q.identityBatched) (hok : ok → sent) :
    Creates connection q sql bindings true ok
      [.statement connection .query (sql ++ ("; " ++ q.identity ++ ";")) bindings sent]
  | refused (hbatched : q.identityBatched = false) : Creates connection q sql bindings true false
      [.statement connection .exec sql bindings false]
  | followed {ok sent : Bool} (hbatched : q.identityBatched = false) (hok : ok → sent) :
    Creates connection q sql bindings true ok [.statement connection .exec sql bindings true,
      .statement connection .query q.identity [] sent]

/-- With the query for the key no placeholder comes in. -/
lemma sign_notMem_tail {identity : String} (hidentity : '@' ∉ identity.toList) :
    ∀ tail ∈ ["", "; " ++ identity ++ ";"], '@' ∉ tail.toList := by
  intro tail htail
  simp only [List.mem_cons, List.not_mem_nil, or_false] at htail
  rcases htail with rfl | rfl
  · decide
  · simp only [String.toList_append, List.mem_append, not_or]
    exact ⟨⟨by decide, hidentity⟩, by decide⟩

/-- The parameters that suit an insert suit it with the query for the key, which has none. -/
lemma Creates.allBound {connection sql : String} {q : Dialect} {bindings : List Binding}
    {generated ok : Bool} {events : List Event} {T : EntityType} {e : Entity}
    (h : Creates connection q sql bindings generated ok events)
    (hidentity : '@' ∉ q.identity.toList)
    (hsql : ∀ tail ∈ ["", "; " ++ q.identity ++ ";"], Bound T e (sql ++ tail) bindings) :
    AllBound T e events := by
  have halone : Bound T e sql bindings := by simpa using hsql "" (by simp)
  cases h with
  | natural ok => exact allBound_singleton halone
  | batched hbatched hok => exact allBound_singleton (hsql _ (by simp))
  | refused hbatched => exact allBound_singleton halone
  | followed hbatched hok =>
    intro c mode text bs ok' hmem
    rcases List.mem_cons.mp hmem with h | h
    · exact allBound_singleton halone _ _ _ _ _ (List.mem_singleton.mpr h)
    · exact allBound_singleton (bound_of_notMem T e hidentity) _ _ _ _ _ h

namespace SqlTable

variable {t : SqlTable} {T : EntityType} {s : Schema} {e : Entity} {bindings : List Binding}

lemma create_generated (hgenerated : s.generated = true)
    (hb : t.bindings T e s.insertable = .ok bindings) : t.create T s e =
      t.doing "insert into" (Connection.insert t.connection (t.statements.insert.text t.dialect)
        bindings t.dialect) >>= fun key => Fallible.ofExcept (T.assign e s.key key) := by
  rw [create, hb, ofExcept_ok_bind, hgenerated]
  rfl

lemma create_natural (hgenerated : s.generated = false)
    (hb : t.bindings T e s.insertable = .ok bindings) : t.create T s e =
      discard (t.doing "insert into" (Connection.exec t.connection
        (t.statements.insert.text t.dialect) bindings)) >>= fun _ => pure e := by
  rw [create, hb, ofExcept_ok_bind, hgenerated]
  rfl

/-- What comes of a create whose key is generated, by what comes of the insert. -/
lemma create_of_insert (hgenerated : s.generated = true)
    (hb : t.bindings T e s.insertable = .ok bindings) (w : World) :
    (t.create T s e w).2 = (Connection.insert t.connection (t.statements.insert.text t.dialect)
        bindings t.dialect w).2 ∧
      ((t.create T s e w).1.isOk → (Connection.insert t.connection
        (t.statements.insert.text t.dialect) bindings t.dialect w).1.isOk) := by
  rw [create_generated hgenerated hb, bind_apply, doing, Step.reported, Step.context, adapt_apply,
    adapt_apply]
  rcases Connection.insert t.connection (t.statements.insert.text t.dialect) bindings t.dialect w
    with ⟨r | key, w'⟩
  · exact ⟨rfl, fun h => by cases h⟩
  · exact ⟨rfl, fun _ => rfl⟩

/-- A create whose parameters are at hand leaves in the log what an insert leaves. -/
lemma creates (hq : t.dialect.Usual) {columns : List String}
    (hinsert : t.statements.insert = .insert t.name columns
      (if s.generated && t.dialect.identityBatched then some t.dialect.identity else none))
    (hb : t.bindings T e s.insertable = .ok bindings) (w : World) : ∃ events,
      (t.create T s e w).2.log = w.log ++ events ∧
        Creates t.connection t.dialect (insertText t.name columns) bindings s.generated
          (t.create T s e w).1.isOk events := by
  rcases hgenerated : s.generated with _ | _ <;> rw [hgenerated] at hinsert
  · have hsql : t.statements.insert.text t.dialect = insertText t.name columns := by
      rw [hinsert]
      exact insert_text hq
    have hlog := t.log_command "insert into" (insertText t.name columns) bindings w
    rw [create_natural hgenerated hb, hsql, bind_apply]
    rcases hx : discard (t.doing "insert into" (Connection.exec t.connection
      (insertText t.name columns) bindings)) w with ⟨err | _, w'⟩ <;> rw [hx] at hlog
    · exact ⟨_, hlog, .natural false⟩
    · exact ⟨_, hlog, .natural true⟩
  · obtain ⟨events, hlog, hinserts⟩ := Connection.inserts t.connection
      (t.statements.insert.text t.dialect) bindings t.dialect w
    obtain ⟨hworld, hok⟩ := create_of_insert hgenerated hb w
    refine ⟨events, hworld ▸ hlog, ?_⟩
    generalize (Connection.insert t.connection (t.statements.insert.text t.dialect) bindings
      t.dialect w).1 = result at hinserts hok
    -- A reply that did not come is no key.
    have hreply : ∀ reply : Except Report (List Row),
        (reply >>= Connection.firstValue).isOk → reply.isOk := by
      rintro (r | rows) h
      · cases h
      · rfl
    have halone (hd : t.dialect.identityBatched = false) :
        t.statements.insert.text t.dialect = insertText t.name columns := by
      rw [hinsert, hd]
      exact insert_text hq
    cases hinserts with
    | batched hd reply =>
      have hsql : t.statements.insert.text t.dialect =
          insertText t.name columns ++ ("; " ++ t.dialect.identity ++ ";") := by
        rw [hinsert, hd]
        exact insert_text_batched hq t.dialect.identity
      rw [hsql]
      exact .batched hd fun h => hreply reply (hok h)
    | refused hd r =>
      have hfailed : (t.create T s e w).1.isOk = false :=
        Bool.eq_false_iff.mpr fun h => by cases hok h
      rw [halone hd, hfailed]
      exact .refused hd
    | followed hd reply =>
      rw [halone hd]
      exact .followed hd fun h => hreply reply (hok h)

lemma update_eq (hb : t.bindings T e s.persisted = .ok bindings) {st : Statement}
    (hst : t.statements.update = some st) : t.update T s e =
      discard (t.doing "update" (Connection.exec t.connection (st.text t.dialect) bindings)) := by
  simp only [update, hst, hb]
  rw [ofExcept_ok_bind]

lemma delete_eq (hb : t.bindings T e [s.key] = .ok bindings) : t.delete T s e =
    discard (t.doing "delete from" (Connection.exec t.connection
      (t.statements.delete.text t.dialect) bindings)) := by
  rw [delete, hb, ofExcept_ok_bind]

section Layout

variable {d : Declaration}

variable (ht : t.statements = .of t.name s t.dialect) (hs : s.IsOf d.type) (hq : t.dialect.Usual)
  (htable : '@' ∉ t.name.toList) (hnames : ∀ f ∈ d.names, ∀ c ∈ f.toList, isNamePart c)
  (he : d.Fits e.scalars)

include ht hs hq htable hnames he

lemma create_bound (hidentity : '@' ∉ t.dialect.identity.toList) (w : World) :
    ∃ bindings events, (t.create d.type s e w).2.log = w.log ++ events ∧
      AllBound d.type e events ∧ Creates t.connection t.dialect
        (insertText t.name (d.inserted s)) bindings s.generated
        (t.create d.type s e w).1.isOk events := by
  have hmem : ∀ f ∈ d.inserted s, f ∈ d.names := fun f hf => (Declaration.mem_inserted.mp hf).1
  obtain ⟨bindings, hb, hbound⟩ :=
    exists_bindings hq he hmem Declaration.inserted_nodup
  have hinsert : t.statements.insert = .insert t.name (d.inserted s)
      (if s.generated && t.dialect.identityBatched then some t.dialect.identity else none) := by
    rw [ht, ← hs.insertable_eq]
    rfl
  rw [← hs.insertable_eq] at hb
  obtain ⟨events, hlog, hcreates⟩ := creates hq hinsert hb w
  refine ⟨bindings, events, hlog, hcreates.allBound hidentity fun tail htail => hbound _ ?_,
    hcreates⟩
  rw [placeholders_insertText htable (fun f hf => hnames f (hmem f hf))
    (sign_notMem_tail hidentity tail htail)]

/-- The update sets the columns other than the key, and its parameters are those of all fields: that
of the key selects. -/
lemma update_bound (w : World) : ∃ bindings events,
    (t.update d.type s e w).2.log = w.log ++ events ∧ AllBound d.type e events ∧
      events = if d.others s.key = [] then [] else [.statement t.connection .exec
        (updateText t.name (d.others s.key) s.key) bindings (t.update d.type s e w).1.isOk] := by
  by_cases hothers : d.others s.key = []
  · have hnone : t.statements.update = none := by
      rw [ht, Statements.of, hs.persistedWithoutKey_eq, hothers]
      rfl
    refine ⟨[], [], ?_, fun _ _ _ _ _ h => absurd h List.not_mem_nil, (if_pos hothers).symm⟩
    rw [update, hnone]
    exact (List.append_nil _).symm
  · have hsome : t.statements.update = some (.update t.name (d.others s.key) s.key) := by
      rw [ht, Statements.of, hs.persistedWithoutKey_eq]
      simp [hothers]
    have hall : s.persisted = d.names := hs.persisted_eq
    have hmem : ∀ f ∈ s.persisted, f ∈ d.names := fun f hf => hall ▸ hf
    obtain ⟨bindings, hb, hbound⟩ := exists_bindings hq he hmem (hall ▸ d.names_nodup)
    have hkey := hnames _ hs.key_mem
    have hcolumns : ∀ f ∈ d.others s.key, ∀ c ∈ f.toList, isNamePart c :=
      fun f hf => hnames f (List.mem_of_mem_filter hf)
    refine ⟨bindings, _, ?_, ?_, (if_neg hothers).symm⟩
    · rw [update_eq hb hsome, update_text hq]
      exact t.log_command _ _ _ w
    · refine allBound_singleton (hbound _ ?_)
      rw [placeholders_updateText htable hcolumns hkey, hall]
      exact d.others_perm hs.key_mem

lemma delete_bound (w : World) : ∃ bindings events,
    (t.delete d.type s e w).2.log = w.log ++ events ∧ AllBound d.type e events ∧
      events = [.statement t.connection .exec (deleteText t.dialect t.name s.key) bindings
        (t.delete d.type s e w).1.isOk] := by
  have hmem : ∀ f ∈ [s.key], f ∈ d.names := by simpa using hs.key_mem
  obtain ⟨bindings, hb, hbound⟩ := exists_bindings hq he hmem (List.nodup_singleton _)
  have hkey := hnames _ hs.key_mem
  have hsql : t.statements.delete.text t.dialect = deleteText t.dialect t.name s.key := by
    rw [ht]
    exact delete_text hq
  rw [delete_eq hb, hsql]
  refine ⟨bindings, _, t.log_command _ _ _ w, allBound_singleton (hbound _ ?_), rfl⟩
  rw [placeholders_deleteText _ htable hkey]

end Layout

end SqlTable

/-! ### Every write of an adapter -/

namespace Adapter

/-- The write leaves in the log a note of itself and then the events, in each statement of which the
parameters are those of the text. -/
def Sends {α : Type} (a : Adapter) (op : Operation) (e : Entity) (w : World) (x : Step Error α)
    (events : List Event) : Prop :=
  (x w).2.log = w.log ++ .write none op a.type.name (a.type.read? e a.schema.key) e :: events ∧
    AllBound a.type e events

variable {d : Declaration} {q : Dialect} {connection : String} {table key : Option String}
  {generated : Option Bool} {a : Adapter} {e : Entity}

/-- The events of a write on the connection follow the note of it. -/
lemma sends_of_log {α : Type} {op : Operation} {w : World} {x : Step Error α} {events : List Event}
    (hlog : (x w).2.log =
      (w.note (.write none op a.type.name (a.type.read? e a.schema.key) e)).log ++ events)
    (hbound : AllBound a.type e events) : a.Sends op e w x events := by
  refine ⟨?_, hbound⟩
  rw [hlog, World.log_note, List.append_assoc]
  rfl

/-- What the writes of an adapter send. An insert has a parameter for each column, the key among
them unless it is generated; then the key is asked for once, in the text of the insert or after it.
An update sets everything but the key, and it and a delete select by the key. In each statement the
parameters are those of the text, bound to what the entity has in the fields of their names. -/
theorem writes_bound (ha : onConnection d.type connection q table key generated = .ok a)
    (hq : q.Usual) (hidentity : '@' ∉ q.identity.toList)
    (htable : '@' ∉ (table.getD d.name).toList)
    (hnames : ∀ f ∈ d.names, ∀ c ∈ f.toList, isNamePart c) (he : d.Fits e.scalars)
    (tx : Transaction) (w : World) :
    (∃ bindings events, a.Sends .insert e w (a.create tx e) events ∧
        Creates connection q (insertText (table.getD d.name) (d.inserted a.schema)) bindings
          a.schema.generated (a.create tx e w).1.isOk events) ∧
      (∀ tail ∈ ["", "; " ++ q.identity ++ ";"],
        placeholders (insertText (table.getD d.name) (d.inserted a.schema) ++ tail).toList =
          d.inserted a.schema) ∧
      (∃ bindings, a.Sends .update e w (a.update tx e) (if d.others a.schema.key = [] then [] else
        [.statement connection .exec
          (updateText (table.getD d.name) (d.others a.schema.key) a.schema.key) bindings
          (a.update tx e w).1.isOk])) ∧
      (∃ bindings, a.Sends .delete e w (a.delete tx e)
        [.statement connection .exec (deleteText q (table.getD d.name) a.schema.key) bindings
          (a.delete tx e w).1.isOk]) ∧
      (a.schema.key ∈ d.inserted a.schema ↔ a.schema.generated = false) ∧
      ∀ f ∈ d.names, f ≠ a.schema.key → f ∈ d.inserted a.schema := by
  obtain ⟨s, hs, ha⟩ := except_bind_eq_ok.mp ha
  have hs : s.IsOf d.type := ⟨key, generated, hs⟩
  cases ha
  let t : SqlTable := ⟨connection, table.getD d.name, q, .of (table.getD d.name) s q⟩
  have ht : t.statements = .of t.name s t.dialect := rfl
  have hcolumns : ∀ f ∈ d.inserted s, ∀ c ∈ f.toList, isNamePart c :=
    fun f hf => hnames f (Declaration.mem_inserted.mp hf).1
  refine ⟨?_, fun tail htail =>
    placeholders_insertText htable hcolumns (sign_notMem_tail hidentity tail htail), ?_, ?_, ?_, ?_⟩
  · obtain ⟨bindings, events, hlog, hbound, hcreates⟩ := SqlTable.create_bound ht hs hq htable
      hnames he hidentity (w.note (.write none .insert d.name (d.type.read? e s.key) e))
    exact ⟨bindings, events, sends_of_log hlog hbound, hcreates⟩
  · obtain ⟨bindings, events, hlog, hbound, hevents⟩ := SqlTable.update_bound ht hs hq htable hnames
      he (w.note (.write none .update d.name (d.type.read? e s.key) e))
    exact ⟨bindings, hevents ▸ sends_of_log hlog hbound⟩
  · obtain ⟨bindings, events, hlog, hbound, hevents⟩ := SqlTable.delete_bound ht hs hq htable hnames
      he (w.note (.write none .delete d.name (d.type.read? e s.key) e))
    exact ⟨bindings, hevents ▸ sends_of_log hlog hbound⟩
  · rw [Declaration.mem_inserted]
    simp [hs.key_mem]
  · exact fun f hf hkey => Declaration.mem_inserted.mpr ⟨hf, fun _ => hkey⟩

end Adapter

namespace Cloakroom

def annsCoat : Entity where
  scalars := [("coatId", .int 3), ("owner", .text "Ann")]
  children := []

lemma annsCoat_fits : coat.Fits annsCoat.scalars :=
  Declaration.fits_of_forall₂ (.cons ⟨rfl, (3 : Int64), rfl⟩ (.cons ⟨rfl, "Ann", rfl⟩ .nil))

def hall : World where
  backends := [(.connection "hall", .remote {})]

theorem annsCoat_bound : ∃ a,
    Adapter.onConnection coat.type "hall" .sqlite none (some "coatId") none = .ok a ∧
    (∃ bindings events, a.Sends .insert annsCoat hall (a.create .autocommit annsCoat) events ∧
      Creates "hall" .sqlite "INSERT INTO [Coat] ([owner]) VALUES (@owner)" bindings true
        (a.create .autocommit annsCoat hall).1.isOk events) ∧
    ∃ bindings, a.Sends .update annsCoat hall (a.update .autocommit annsCoat)
      [.statement "hall" .exec "UPDATE [Coat] SET [owner] = @owner WHERE [coatId] = @coatId"
        bindings (a.update .autocommit annsCoat hall).1.isOk] := by
  have husual : Dialect.sqlite.Usual := ⟨rfl, rfl, rfl⟩
  have hidentity : '@' ∉ Dialect.sqlite.identity.toList := by decide
  obtain ⟨a, ha⟩ : ∃ a,
    Adapter.onConnection coat.type "hall" .sqlite none (some "coatId") none = .ok a := ⟨_, rfl⟩
  have htable : '@' ∉ "Coat".toList := by decide
  have hbound := Adapter.writes_bound ha husual hidentity htable coat_plain annsCoat_fits
    .autocommit hall
  cases ha
  exact ⟨_, rfl, hbound.1, hbound.2.2.1⟩

end Cloakroom

end EntityStore
