import EntityStore.Proofs.Keys
import EntityStore.Proofs.Triple

/-!
Reading and assigning the fields of entities of declared types. What a field shows can always be
assigned to a field of the kind, so nothing stops a snapshot halfway; and an assignment is all or
nothing: it is refused and the entity stays as it was, or the one field changes and nothing else.
-/

namespace EntityStore

/-- To assign a field of the entity at hand. -/
def assigning (T : EntityType) (field : String) (v : Value) : Fallible Entity Error PUnit := do
  set (← Fallible.ofExcept (T.assign (← get) field v))

/-- The entity is replaced only after the assignment went through. -/
lemma assigning_apply (T : EntityType) (field : String) (v : Value) (e : Entity) :
    assigning T field v e = match T.assign e field v with
      | .ok e' => (.ok ⟨⟩, e')
      | .error err => (.error err, e) := by
  rw [assigning, Fallible.bind_of_ok (Fallible.get_apply e)]
  rcases h : T.assign e field v with err | e'
  · exact Fallible.bind_of_error rfl
  · rfl

/-- The second entity is the first with the value in the field, and differs from it in nothing
else. -/
structure EntityType.Assigned (T : EntityType) (field : String) (w : Value) (e e' : Entity) :
    Prop where
  shown : T.read? e' field = some w
  others : ∀ other, other ≠ field → T.read? e' other = T.read? e other
  children : e'.children = e.children

namespace Declaration

variable {d : Declaration} {e : Entity} {field : String} {v w : Value}

/-- No field of the name takes the value. -/
def Refuses (d : Declaration) (field : String) (v : Value) : Prop :=
  ∀ k, d.fields.lookup field = some k → k.ofValue? v = none

/-- The field takes the value, and shows the other one for it. -/
def TakesAs (d : Declaration) (field : String) (v w : Value) : Prop :=
  ∃ k c, d.fields.lookup field = some k ∧ k.ofValue? v = some c ∧ w = k.toValue c

/-- The copy shows all that the entity shows, and its collections are empty. -/
structure Copied (d : Declaration) (e copy : Entity) : Prop where
  shown : ∀ field ∈ d.fields.map Prod.fst, ∃ v, d.type.read? e field = some v ∧
    d.type.read? copy field = some v
  children : copy.children = d.navigations.map fun n => (n.name, [])

lemma refuses_or_takesAs (d : Declaration) (field : String) (v : Value) :
    d.Refuses field v ∨ ∃ w, d.TakesAs field v w := by
  by_cases h : d.Refuses field v
  · exact .inl h
  · unfold Refuses at h
    push Not at h
    obtain ⟨k, hk, hc⟩ := h
    obtain ⟨c, hc⟩ := Option.ne_none_iff_exists'.mp hc
    exact .inr ⟨_, k, c, hk, hc, rfl⟩

lemma Fits.exists_read? (he : d.Fits e.scalars) (hf : field ∈ d.fields.map Prod.fst) :
    ∃ v, d.type.read? e field = some v := by
  obtain ⟨_, v, -, hv, -⟩ := he.lookup hf
  exact ⟨v, hv⟩

lemma Refuses.assign_eq_error (h : d.Refuses field v) (e : Entity) :
    ∃ err, d.type.assign e field v = .error err := by
  rcases hk : d.fields.lookup field with _ | k
  · exact ⟨.unknownField d.name field, by simp [EntityType.assign, type, put, hk, Except.map]⟩
  · exact ⟨.materialization field v, by
      simp [EntityType.assign, type, put, hk, FieldKind.stored, h k hk, Except.map]⟩

lemma TakesAs.assign_eq_ok (h : d.TakesAs field v w) (e : Entity) :
    d.type.assign e field v = .ok { e with scalars := e.scalars.put field w } := by
  obtain ⟨k, c, hk, hc, rfl⟩ := h
  simp [EntityType.assign, type, put, hk, FieldKind.stored, hc, Except.map]

lemma assigned_put (he : d.Fits e.scalars) (hf : field ∈ d.fields.map Prod.fst) (w : Value) :
    d.type.Assigned field w e { e with scalars := e.scalars.put field w } where
  shown := by
    obtain ⟨v, hv⟩ := he.exists_read? hf
    have hv : e.scalars.lookup field = some v := hv
    exact (Record.lookup_put ..).trans (by simp [hv])
  others other ho := (Record.lookup_put ..).trans (if_neg ho)
  children := rfl

/-- An assignment is refused and changes nothing, or it goes through and changes the field alone. -/
lemma assigning_cases (he : d.Fits e.scalars) (field : String) (v : Value) :
    (d.Refuses field v ∧ ∃ err, assigning d.type field v e = (.error err, e)) ∨
      ∃ w e', d.TakesAs field v w ∧ assigning d.type field v e = (.ok ⟨⟩, e') ∧
        d.type.Assigned field w e e' := by
  rcases d.refuses_or_takesAs field v with h | ⟨w, h⟩
  · obtain ⟨err, herr⟩ := h.assign_eq_error e
    exact .inl ⟨h, err, by rw [assigning_apply, herr]⟩
  · have hf : field ∈ d.fields.map Prod.fst := by
      obtain ⟨k, -, hk, -⟩ := h
      exact (lookup_isSome_iff _ _).mp (by simp [hk])
    exact .inr ⟨w, _, h, by rw [assigning_apply, h.assign_eq_ok], assigned_put he hf w⟩

/-- The snapshot of an entity is a copy of it. -/
lemma snapshot_copied {s : Schema} (hs : s.IsOf d.type) (he : d.Fits e.scalars) :
    ∃ copy, s.snapshot d.type e = .ok copy ∧ d.Copied e copy := by
  refine ⟨_, Schema.snapshot_eq hs he, fun field hf => ?_, rfl⟩
  obtain ⟨v, hv⟩ := he.exists_read? hf
  exact ⟨v, hv, hv⟩

/-- **Fields survive their values.** A kind takes back what it shows and shows the same again. So an
entity of a declared type can always be copied, and an assignment to it is refused without a trace
or changes nothing but its field. -/
theorem fields_survive :
    (∀ (k : FieldKind) (c : k.Content),
      ∃ c', k.ofValue? (k.toValue c) = some c' ∧ k.toValue c' = k.toValue c) ∧
    ∀ (d : Declaration) (e : Entity), d.Fits e.scalars →
      (∀ s : Schema, s.IsOf d.type → ∃ copy, s.snapshot d.type e = .ok copy ∧ d.Copied e copy) ∧
      ∀ field v, (d.Refuses field v ∧ ∃ err, assigning d.type field v e = (.error err, e)) ∨
        ∃ w e', d.TakesAs field v w ∧ assigning d.type field v e = (.ok ⟨⟩, e') ∧
          d.type.Assigned field w e e' := by
  refine ⟨FieldKind.ofValue?_toValue, fun d e he => ⟨fun s hs => ?_, fun field v => ?_⟩⟩
  · exact snapshot_copied hs he
  · exact assigning_cases he field v

end Declaration

/-! ### A patient with visits -/

namespace Ward

def patient : Declaration where
  name := "Patient"
  fields := [("id", .int32), ("severity", .enumeration ⟨[1, 2, 5], 1, by decide⟩),
    ("discharged", .optional (.optional .date))]
  navigations := [⟨"visits", "Visit"⟩]

/-- The layout with the key `id`. -/
def charts : Schema where
  entity := "Patient"
  descriptors := [⟨"id", some ⟨.integer, false⟩, .key true⟩,
    ⟨"severity", some ⟨.enumeration, false⟩, .scalar⟩,
    ⟨"discharged", some ⟨.dateTime, true⟩, .scalar⟩, ⟨"visits", none, .navigation⟩]
  key := "id"
  generated := true

def admitted : Entity where
  scalars := [("id", .int 7), ("severity", .int 5), ("discharged", .null)]
  children := [("visits", [⟨[("hours", .int 2)], []⟩])]

lemma admitted_fits : patient.Fits admitted.scalars :=
  Declaration.fits_of_forall₂ (.cons ⟨rfl, (7 : Int32), rfl⟩
    (.cons ⟨rfl, ⟨5, by decide⟩, rfl⟩ (.cons ⟨rfl, some none, rfl⟩ .nil)))

theorem admitted_survives :
    (∃ copy, charts.snapshot patient.type admitted = .ok copy ∧ copy.collection "visits" = [] ∧
      patient.type.read? copy "discharged" = some .null) ∧
    (∃ err, assigning patient.type "severity" (.int 3) admitted = (.error err, admitted)) ∧
    ∃ e', assigning patient.type "severity" (.int 2) admitted = (.ok ⟨⟩, e') ∧
      patient.type.read? e' "severity" = some (.int 2) ∧
      patient.type.read? e' "id" = some (.int 7) ∧ e'.children = admitted.children := by
  have hs : charts.IsOf patient.type := ⟨some "id", none, rfl⟩
  obtain ⟨hsnapshot, hassign⟩ := Declaration.fields_survive.2 patient admitted admitted_fits
  obtain ⟨copy, hcopy, hcopied⟩ := hsnapshot charts hs
  refine ⟨⟨copy, hcopy, ?_, ?_⟩, ?_, ?_⟩
  · rw [Entity.collection, hcopied.children]
    rfl
  · obtain ⟨v, hv, hread⟩ := hcopied.shown "discharged" (by decide)
    cases hv
    exact hread
  · rcases hassign "severity" (.int 3) with ⟨-, h⟩ | ⟨_, _, ⟨k, c, hk, hc, -⟩, -⟩
    · exact h
    · cases hk
      cases hc
  · rcases hassign "severity" (.int 2) with ⟨h, -⟩ | ⟨_, e', ⟨k, c, hk, hc, rfl⟩, hrun, ha⟩
    · cases h _ rfl
    · cases hk
      cases hc
      exact ⟨e', hrun, ha.shown, ha.others "id" (by decide), ha.children⟩

end Ward

end EntityStore
