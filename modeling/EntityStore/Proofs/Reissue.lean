import EntityStore.Proofs.Growth
import EntityStore.Proofs.Storing

/-!
The keys that a table gives out over a run. Each is the least above the rows that are there, so it
is greater than those given out before, as long as these have not been deleted; a key comes back
once it and all above it are gone.
-/

namespace EntityStore

open Fallible

/-! ### The keys of a table over one request -/

/-- What a request does to the keys of a table: it adds the least that is above them, or takes one
out where it is a deletion, or leaves them. -/
inductive Rekeys (s : Schema) :
    Request → Except Error Answer → List (Option Int64) → List (Option Int64) → Prop
  | created {tx : Transaction} {e e' : Entity} {k : Int64} {m : List (Option Int64)}
    (above : Table.Above m k) (least : ∀ j, Table.Above m j → k ≤ j)
    (carries : e'.scalars.integer? s.key = some k) :
    Rekeys s (.create tx e) (.ok (.created e')) m (m ++ [some k])
  | deleted {tx : Transaction} {e : Entity} {m : List (Option Int64)} :
    Rekeys s (.delete tx e) (.ok .done) m (m.erase (e.scalars.integer? s.key))
  | kept {q : Request} {x : Except Error Answer} {m : List (Option Int64)}
    (uncreated : ∀ e, x ≠ .ok (.created e)) : Rekeys s q x m m

/-- A key is not lost unless it is deleted. -/
lemma Rekeys.mem {s : Schema} {q : Request} {x : Except Error Answer} {m m' : List (Option Int64)}
    (h : Rekeys s q x m m') {k : Option Int64} (hk : k ∈ m) :
    k ∈ m' ∨ ∃ tx e, q = .delete tx e ∧ x = .ok .done ∧ e.scalars.integer? s.key = k := by
  cases h with
  | created above least carries => exact .inl (List.mem_append_left _ hk)
  | @deleted tx e =>
    by_cases heq : e.scalars.integer? s.key = k
    · exact .inr ⟨tx, e, rfl, rfl, heq⟩
    · exact .inl ((List.mem_erase_of_ne (Ne.symm heq)).mpr hk)
  | kept uncreated => exact .inl hk

namespace Table

variable {d : Declaration} {s : Schema} {rows : List Entity} {e e' : Entity} {k : Int64}

lemma keys_middle (key : String) (before after : List Entity) (row : Entity) :
    keys key (before ++ row :: after) =
      keys key before ++ row.scalars.integer? key :: keys key after := by
  simp [keys]

lemma mem_bindings_fst {key : String} {i : Option Int64} :
    i ∈ keys key rows ↔ ∃ p ∈ bindings key rows, p.1 = i := by
  simp [keys, bindings]

/-- The key of a creation is the least above the table. -/
lemma create_least (hg : s.generated = true) (hk : d.HasInteger s.key)
    (hrows : ∀ row ∈ rows, d.Fits row.scalars) (he : d.Fits e.scalars)
    (h : (create d.type s e rows).result = .ok e') (hkey : e'.scalars.integer? s.key = some k) :
    ∀ j, Above (keys s.key rows) j → k ≤ j := by
  unfold create at h
  split at h
  · rename_i c hc
    obtain rfl : c.entity = e' := by simpa using h
    obtain ⟨hkeyed, -, -⟩ := creation_eq_ok hc
    rw [keyed, if_pos hg] at hkeyed
    obtain ⟨k', hnext, hassign⟩ := except_bind_eq_ok.mp hkeyed
    have heq := Declaration.assign_integer hk hassign
    have hself := Record.integer?_put_self (hk.mem_names he) k'
    rcases nextKey_cases hrows hk with ⟨k₁, hk₁, -, hleast⟩ | ⟨err, herr, -⟩
    · obtain rfl : k₁ = k' := by simpa [hk₁] using hnext
      obtain rfl : k₁ = k := by
        rw [heq] at hkey
        exact Option.some.inj (hself.symm.trans hkey)
      exact hleast
    · rw [herr] at hnext
      cases hnext
  · cases h

lemma update_keys (hs : s.IsOf d.type) (hk : d.HasInteger s.key)
    (hrows : ∀ row ∈ rows, d.Fits row.scalars) (he : d.Fits e.scalars) :
    keys s.key (update d.type s e rows).rows = keys s.key rows ∧
      ∀ row ∈ (update d.type s e rows).rows, d.Fits row.scalars := by
  rcases update_cases hs hk hrows he with
    ⟨hupdate, -⟩ | ⟨before, row, after, rfl, hrow, -, hupdate⟩
  · rw [hupdate]
    exact ⟨rfl, hrows⟩
  · rw [hupdate]
    refine ⟨by rw [keys_middle, keys_middle, hrow], fun x hx => ?_⟩
    rcases List.mem_append.mp hx with hx | hx
    · exact hrows x (by simp [hx])
    · rcases List.mem_cons.mp hx with rfl | hx
      · exact he
      · exact hrows x (by simp [hx])

lemma delete_keys (hk : d.HasInteger s.key) (hrows : ∀ row ∈ rows, d.Fits row.scalars)
    (he : d.Fits e.scalars) :
    keys s.key (delete d.type s e rows).rows =
        (keys s.key rows).erase (e.scalars.integer? s.key) ∧
      ∀ row ∈ (delete d.type s e rows).rows, d.Fits row.scalars := by
  rcases delete_cases hk hrows he with
    ⟨hdelete, hnone⟩ | ⟨before, row, after, rfl, hrow, hbefore, hdelete⟩
  · rw [hdelete]
    refine ⟨(List.erase_of_not_mem fun hmem => ?_).symm, hrows⟩
    obtain ⟨p, hp, heq⟩ := mem_bindings_fst.mp hmem
    exact hnone p hp heq
  · rw [hdelete]
    refine ⟨?_, fun x hx => hrows x ?_⟩
    · have hnot : e.scalars.integer? s.key ∉ keys s.key before := by
        intro hmem
        obtain ⟨p, hp, heq⟩ := mem_bindings_fst.mp hmem
        exact hbefore p hp heq
      rw [keys_middle, hrow, List.erase_append_right _ hnot, List.erase_cons_head, keys_append]
    · rcases List.mem_append.mp hx with hx | hx
      · simp [hx]
      · simp [hx]

end Table

namespace Adapter

variable {Γ : Declarations} {t : MemoryTable} {a : Adapter} {q : Request} {w w' : World}

/-- The rows of the table are well typed. -/
def Holds (Γ : Declarations) (t : MemoryTable) (a : Adapter) (w : World) : Prop :=
  ∀ row ∈ w.rows t.name, (Γ.of a.type.name).Fits row.scalars

/-- The keys of the table in a world. -/
def keysIn (a : Adapter) (t : MemoryTable) (w : World) : List (Option Int64) :=
  Table.keys a.schema.key (w.rows t.name)

namespace Generates

variable (ha : a.Generates Γ t)

include ha

lemma create_rekeys {tx : Transaction} {e e' : Entity} (hw : a.Holds Γ t w)
    (he : (Γ.of a.type.name).Fits e.scalars) (h : a.create tx e w = (.ok e', w')) :
    Rekeys a.schema (.create tx e) (.ok (.created e')) (a.keysIn t w) (a.keysIn t w') ∧
      a.Holds Γ t w' := by
  obtain ⟨k, habove, rfl, hfits, htables⟩ := ha.create_ok hw he h
  have hT : a.type = (Γ.of a.type.name).type := ha.declared.type
  have hkey : (e.withInteger a.schema.key k).scalars.integer? a.schema.key = some k :=
    Record.integer?_put_self (ha.key.mem_names he) k
  have hrows : w'.rows t.name = w.rows t.name ++ [a.type.bare (e.withInteger a.schema.key k)] := by
    rw [rows_of_put htables, Function.update_self]
  have hwrite : a.write tx .insert e w = (.ok (e.withInteger a.schema.key k), w') := h
  have hresult := (write_eq_ok ha.storage hwrite).1
  rw [hT] at hresult
  have hleast := Table.create_least ha.generated ha.key hw he hresult hkey
  have hkeys : a.keysIn t w' = a.keysIn t w ++ [some k] := by
    rw [keysIn, keysIn, hrows, Table.keys_append, ← hkey]
    rfl
  rw [hkeys]
  refine ⟨.created habove hleast hkey, fun row hrow => ?_⟩
  rw [hrows] at hrow
  rcases List.mem_append.mp hrow with hrow | hrow
  · exact hw row hrow
  · rw [List.mem_singleton.mp hrow]
    exact hfits

lemma update_rekeys {tx : Transaction} {e : Entity} (hw : a.Holds Γ t w)
    (he : (Γ.of a.type.name).Fits e.scalars) :
    a.keysIn t (a.update tx e w).2 = a.keysIn t w ∧ a.Holds Γ t (a.update tx e w).2 := by
  have hT : a.type = (Γ.of a.type.name).type := ha.declared.type
  have hs : a.schema.IsOf (Γ.of a.type.name).type := hT ▸ ha.declared.schema
  have hupdate : a.update tx e =
      a.announce .update e >>= fun _ => t.write tx (Table.update a.type a.schema e) := by
    rw [update, ha.storage]
  rw [hupdate]
  rcases a.announced_cases .update e t tx (Table.update a.type a.schema e) w with
    ⟨err, w', h, htables⟩ | ⟨w', h, htables⟩
  · rw [h, keysIn, keysIn, Holds, World.rows_of_tables htables]
    exact ⟨rfl, hw⟩
  · have hkeys := Table.update_keys hs ha.key hw he
    rw [← hT] at hkeys
    rw [h, keysIn, keysIn, Holds, rows_of_put htables, Function.update_self]
    exact hkeys

lemma delete_rekeys {tx : Transaction} {e : Entity} (hw : a.Holds Γ t w)
    (he : (Γ.of a.type.name).Fits e.scalars) :
    Rekeys a.schema (.delete tx e) ((a.delete tx e w).1.map fun _ => .done) (a.keysIn t w)
        (a.keysIn t (a.delete tx e w).2) ∧
      a.Holds Γ t (a.delete tx e w).2 := by
  have hT : a.type = (Γ.of a.type.name).type := ha.declared.type
  have hdelete : a.delete tx e =
      a.announce .delete e >>= fun _ => t.write tx (Table.delete a.type a.schema e) := by
    rw [delete, ha.storage]
  rw [hdelete]
  rcases a.announced_cases .delete e t tx (Table.delete a.type a.schema e) w with
    ⟨err, w', h, htables⟩ | ⟨w', h, htables⟩
  · rw [h, keysIn, keysIn, Holds, World.rows_of_tables htables]
    exact ⟨.kept (by simp [Except.map]), hw⟩
  · have hkeys := Table.delete_keys ha.key hw he
    have hok :
        (Table.delete (Γ.of a.type.name).type a.schema e (w.rows t.name)).result = .ok () := by
      rcases Table.delete_cases ha.key hw he with ⟨hd, -⟩ | ⟨_, _, _, -, -, -, hd⟩ <;> rw [hd]
    rw [← hT] at hkeys hok
    rw [h, keysIn, keysIn, Holds, rows_of_put htables, Function.update_self, hok, hkeys.1]
    exact ⟨.deleted, hkeys.2⟩

/-- One request, on the keys. -/
lemma serve_rekeys (hw : a.Holds Γ t w) (hq : q.Typed (Γ.of a.type.name)) :
    Rekeys a.schema q (a.serve q w).1 (a.keysIn t w) (a.keysIn t (a.serve q w).2) ∧
      a.Holds Γ t (a.serve q w).2 := by
  cases q with
  | create tx e =>
    rw [serve, answer_apply]
    rcases h : a.create tx e w with ⟨err | e', w'⟩
    · have hwrite : a.write tx .insert e w = (.error err, w') := h
      have hrows := write_failed ha.declared ha.storage hq hwrite
      rw [keysIn, keysIn, Holds, hrows]
      exact ⟨.kept (by simp [Except.map]), hw⟩
    · exact ha.create_rekeys hw hq h
  | update tx e =>
    obtain ⟨hkeys, hfits⟩ : a.keysIn t (a.update tx e w).2 = a.keysIn t w ∧
        a.Holds Γ t (a.update tx e w).2 := ha.update_rekeys hw hq
    rw [serve, answer_apply, hkeys]
    refine ⟨.kept fun e' h => ?_, hfits⟩
    rcases hr : (a.update tx e w).1 with err | _ <;> rw [hr] at h <;> cases h
  | delete tx e =>
    rw [serve, answer_apply]
    exact ha.delete_rekeys hw hq
  | read p =>
    have hread : a.serve (.read p) w = ((Table.select a.type p (w.rows t.name)).map .found, w) := by
      rw [serve, answer_apply, read, ha.storage]
      rfl
    rw [hread]
    refine ⟨.kept fun e' h => ?_, hw⟩
    rcases hr : Table.select a.type p (w.rows t.name) with err | _ <;> rw [hr] at h <;> cases h

/-! ### The keys of a table over a run -/

/-- A key that no deletion has taken out is still there. -/
lemma mem_keysIn_serveAll {qs : List Request} (hw : a.Holds Γ t w)
    (hq : ∀ q ∈ qs, q.Typed (Γ.of a.type.name)) {k : Option Int64} (hk : k ∈ a.keysIn t w) :
    k ∈ a.keysIn t (a.serveAll qs w).2 ∨
      ∃ tx e, (.delete tx e, .ok .done) ∈ (a.serveAll qs w).1 ∧
        e.scalars.integer? a.schema.key = k := by
  induction qs generalizing w with
  | nil => exact .inl hk
  | cons q qs ih =>
    obtain ⟨hkeys, hw'⟩ := ha.serve_rekeys hw (hq q (by simp))
    rcases hkeys.mem hk with hk | ⟨tx, e, hdelete, hdone, heq⟩
    · rcases ih hw' (fun q' hq' => hq q' (by simp [hq'])) hk with hk | ⟨tx, e, hmem, heq⟩
      · exact .inl hk
      · exact .inr ⟨tx, e, List.mem_cons_of_mem _ hmem, heq⟩
    · refine .inr ⟨tx, e, ?_, heq⟩
      rw [← hdelete, ← hdone]
      exact List.mem_cons_self

lemma holds_serveAll {qs : List Request} (hw : a.Holds Γ t w)
    (hq : ∀ q ∈ qs, q.Typed (Γ.of a.type.name)) : a.Holds Γ t (a.serveAll qs w).2 := by
  induction qs generalizing w with
  | nil => exact hw
  | cons q qs ih =>
    exact ih (ha.serve_rekeys hw (hq q (by simp))).2 fun q' hq' => hq q' (by simp [hq'])

/-- **When a key comes back.** Of two creations in a run, whatever is asked before and between them,
the later assigns the least key above the rows that are then there. It is greater than the key of
the earlier one unless that has been deleted in between, and it is not greater just if all keys
there are less. -/
theorem create_reissues {before between : List Request} {tx tx' : Transaction}
    {e e' e₁ e₂ : Entity} {w₁ w₂ : World} (hw : a.Holds Γ t w)
    (hbefore : ∀ q ∈ before, q.Typed (Γ.of a.type.name))
    (hbetween : ∀ q ∈ between, q.Typed (Γ.of a.type.name))
    (he : (Γ.of a.type.name).Fits e.scalars) (he' : (Γ.of a.type.name).Fits e'.scalars)
    (h : a.create tx e (a.serveAll before w).2 = (.ok e₁, w₁))
    (h' : a.create tx' e' (a.serveAll between w₁).2 = (.ok e₂, w₂)) :
    ∃ k k', e₁.scalars.integer? a.schema.key = some k ∧
      e₂.scalars.integer? a.schema.key = some k' ∧
      Table.Above (a.keysIn t (a.serveAll between w₁).2) k' ∧
      (∀ j, Table.Above (a.keysIn t (a.serveAll between w₁).2) j → k' ≤ j) ∧
      (k < k' ∨ ∃ tx e, (.delete tx e, .ok .done) ∈ (a.serveAll between w₁).1 ∧
        e.scalars.integer? a.schema.key = some k) ∧
      (k' ≤ k ↔ ∀ j, some j ∈ a.keysIn t (a.serveAll between w₁).2 → j < k) := by
  have hw₀ := ha.holds_serveAll hw hbefore
  obtain ⟨hkeys, hw₁⟩ := ha.create_rekeys hw₀ he h
  obtain ⟨hkeys', -⟩ := ha.create_rekeys (ha.holds_serveAll hw₁ hbetween) he' h'
  obtain ⟨k, hk, hpos, hmem⟩ : ∃ k, e₁.scalars.integer? a.schema.key = some k ∧ 0 < k ∧
      some k ∈ a.keysIn t w₁ := by
    generalize a.keysIn t w₁ = m at hkeys
    cases hkeys with
    | @created _ _ _ k _ above least carries =>
      exact ⟨k, carries, above.pos, List.mem_append_right _ (List.mem_singleton_self _)⟩
    | kept uncreated => exact absurd rfl (uncreated _)
  obtain ⟨k', hk', habove, hleast⟩ : ∃ k', e₂.scalars.integer? a.schema.key = some k' ∧
      Table.Above (a.keysIn t (a.serveAll between w₁).2) k' ∧
      ∀ j, Table.Above (a.keysIn t (a.serveAll between w₁).2) j → k' ≤ j := by
    generalize a.keysIn t w₂ = m at hkeys'
    cases hkeys' with
    | @created _ _ _ k _ above least carries => exact ⟨k, carries, above, least⟩
    | kept uncreated => exact absurd rfl (uncreated _)
  refine ⟨k, k', hk, hk', habove, hleast, ?_, fun hle j hj => ?_, fun hall => ?_⟩
  · rcases ha.mem_keysIn_serveAll hw₁ hbetween hmem with hmem' | hdeleted
    · exact .inl (habove.greater k hmem')
    · exact .inr hdeleted
  · exact Int64.lt_of_lt_of_le (habove.greater j hj) hle
  · exact hleast k ⟨hpos, hall⟩

end Generates

end Adapter

/-- The keys that were given out in a run, in their order. -/
def Adapter.issued (a : Adapter) (log : List (Request × Except Error Answer)) : List Int64 :=
  log.filterMap fun x => match x.2 with
    | .ok (.created e) => e.scalars.integer? a.schema.key
    | _ => none

/-! ### A key given out twice -/

namespace Desk

/-- The first ticket is taken back. -/
def withdrawn : List Request := [.delete .autocommit (ticket (some 1) "first")]

lemma withdrawn_typed : ∀ q ∈ withdrawn, q.Typed ticketType := by
  intro q hq
  rw [List.mem_singleton.mp hq]
  exact ticket_fits _ _

lemma tickets_hold_none : tickets.Holds types ⟨"tickets", none⟩ {} := fun _ hrow => (nomatch hrow)

/-- The second ticket gets the key that the first one had. -/
theorem withdrawn_reissues : ∃ e₁ w₁ e₂ w₂,
    tickets.create .autocommit (ticket none "first") (tickets.serveAll [] {}).2 = (.ok e₁, w₁) ∧
      tickets.create .autocommit (ticket none "second") (tickets.serveAll withdrawn w₁).2 =
        (.ok e₂, w₂) ∧
      e₂.scalars.integer? "ticketId" = some 1 ∧
      ∃ k k', e₁.scalars.integer? "ticketId" = some k ∧ e₂.scalars.integer? "ticketId" = some k' ∧
        (k < k' ∨ ∃ tx e, (.delete tx e, .ok .done) ∈ (tickets.serveAll withdrawn w₁).1 ∧
          e.scalars.integer? "ticketId" = some k) := by
  obtain ⟨e₁, w₁, e₂, w₂, h₁, h₂, hone⟩ : ∃ e₁ w₁ e₂ w₂,
      tickets.create .autocommit (ticket none "first") (tickets.serveAll [] {}).2 = (.ok e₁, w₁) ∧
        tickets.create .autocommit (ticket none "second") (tickets.serveAll withdrawn w₁).2 =
          (.ok e₂, w₂) ∧
        e₂.scalars.integer? "ticketId" = some 1 := ⟨_, _, _, _, rfl, rfl, rfl⟩
  obtain ⟨k, k', hk, hk', -, -, hkeys, -⟩ := tickets_generates.create_reissues tickets_hold_none
    (by simp) withdrawn_typed (ticket_fits _ _) (ticket_fits _ _) h₁ h₂
  exact ⟨e₁, w₁, e₂, w₂, h₁, h₂, hone, k, k', hk, hk', hkeys⟩

/-- A ticket is filed and taken back, and another is filed. -/
def refiled : List Request :=
  .create .autocommit (ticket none "first") :: withdrawn ++
    [.create .autocommit (ticket none "second")]

/-- All goes through, and the keys do not grow. -/
theorem refiled_issues_twice : (∀ x ∈ (tickets.serveAll refiled {}).1, x.2.isOk) ∧
    tickets.issued (tickets.serveAll refiled {}).1 = [1, 1] ∧
    ¬ (tickets.issued (tickets.serveAll refiled {}).1).Pairwise (· < ·) := by
  have hissued : tickets.issued (tickets.serveAll refiled {}).1 = [1, 1] := rfl
  have hok : (tickets.serveAll refiled {}).1.map (·.2.isOk) = [true, true, true] := rfl
  refine ⟨fun x hx => ?_, hissued, ?_⟩
  · have hmem := List.mem_map_of_mem (f := fun y => y.2.isOk) hx
    rw [hok] at hmem
    simpa using hmem
  · rw [hissued]
    decide

end Desk

end EntityStore
