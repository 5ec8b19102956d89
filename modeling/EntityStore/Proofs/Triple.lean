import EntityStore.Fallible
import Mathlib.Data.List.Forall2
import Mathlib.Tactic.Lemma

/-!
Triples for computations that may fail: what holds of the state before, of the result and the state
where it goes through, and of the error and the state where it does not.

A loop over a list keeps an invariant of the state if each round does.
-/

namespace EntityStore.Fallible

variable {σ ε α β : Type}

/-- From a state with `P` the computation goes through with `Q` or fails with `E`. -/
def Triple (P : σ → Prop) (x : Fallible σ ε α) (Q : α → σ → Prop) (E : ε → σ → Prop) : Prop :=
  ∀ s, P s → match x s with
    | (.ok a, s') => Q a s'
    | (.error e, s') => E e s'

variable {P P' : σ → Prop} {Q Q' : α → σ → Prop} {R : β → σ → Prop} {E E' : ε → σ → Prop}

lemma Triple.pure {a : α} (h : ∀ s, P s → Q a s) : Triple P (Pure.pure a) Q E :=
  fun s hs => h s hs

lemma Triple.modify {f : σ → σ} {Q : PUnit → σ → Prop} (h : ∀ s, P s → Q ⟨⟩ (f s)) :
    Triple P (modify f) Q E :=
  fun s hs => h s hs

lemma Triple.mono {x : Fallible σ ε α} (hx : Triple P x Q E) (hP : ∀ s, P' s → P s)
    (hQ : ∀ a s, Q a s → Q' a s) (hE : ∀ e s, E e s → E' e s) : Triple P' x Q' E' := by
  intro s hs
  have h := hx s (hP s hs)
  rcases hr : x s with ⟨e | a, s'⟩
  · rw [hr] at h; exact hE e s' h
  · rw [hr] at h; exact hQ a s' h

lemma Triple.and_of_ok {q : α → Prop} {x : Fallible σ ε α} (hx : Triple P x (fun _ => P') E)
    (hq : ∀ s a s', x s = (.ok a, s') → q a) : Triple P x (fun a s => P' s ∧ q a) E := by
  intro s hs
  have h := hx s hs
  rcases hr : x s with ⟨e | a, s'⟩
  · rw [hr] at h; exact h
  · rw [hr] at h; exact ⟨h, hq s a s' hr⟩

lemma Triple.bind {x : Fallible σ ε α} {f : α → Fallible σ ε β} (hx : Triple P x Q E)
    (hf : ∀ a, Triple (Q a) (f a) R E) : Triple P (x >>= f) R E := by
  intro s hs
  have h := hx s hs
  rcases hr : x s with ⟨e | a, s'⟩
  · rw [hr] at h
    rw [bind_of_error hr]
    exact h
  · rw [hr] at h
    rw [bind_of_ok hr]
    exact hf a s' h

/-- What is known of the result besides the state goes along as a fact. -/
lemma Triple.bind_of {q : α → Prop} {x : Fallible σ ε α} {f : α → Fallible σ ε β}
    (hx : Triple P x (fun a s => P' s ∧ q a) E) (hf : ∀ a, q a → Triple P' (f a) R E) :
    Triple P (x >>= f) R E :=
  hx.bind fun a s ⟨hs, ha⟩ => hf a ha s hs

/-- A loop that maps a list: an invariant of the state, and what ties each result to its element. -/
lemma Triple.mapM {r : α → β → Prop} {xs : List α} {f : α → Fallible σ ε β}
    (hf : ∀ a ∈ xs, Triple P (f a) (fun b s => P s ∧ r a b) E) :
    Triple P (xs.mapM f) (fun bs s => P s ∧ List.Forall₂ r xs bs) E := by
  induction xs with
  | nil => exact Triple.pure fun s hs => ⟨hs, .nil⟩
  | cons a xs ih =>
    rw [List.mapM_cons]
    refine (hf a (by simp)).bind_of fun b hb => ?_
    refine (ih fun x hx => hf x (by simp [hx])).bind_of fun bs hbs => ?_
    exact Triple.pure fun s hs => ⟨hs, .cons hb hbs⟩

/-- A loop that maps a list: an invariant of the state, and a property of every result. -/
lemma Triple.mapM_all {q : β → Prop} {xs : List α} {f : α → Fallible σ ε β}
    (hf : ∀ a ∈ xs, Triple P (f a) (fun b s => P s ∧ q b) E) :
    Triple P (xs.mapM f) (fun bs s => P s ∧ ∀ b ∈ bs, q b) E := by
  have hall : ∀ {as bs}, List.Forall₂ (fun _ b => q b) (as : List α) bs → ∀ b ∈ bs, q b := by
    intro as bs h
    induction h with
    | nil => simp
    | cons h _ ih => simpa using ⟨h, ih⟩
  exact Triple.mono (Triple.mapM hf) (fun s hs => hs) (fun bs s ⟨hs, hbs⟩ => ⟨hs, hall hbs⟩)
    fun e s he => he

/-- A loop that maps a list whose elements stand for those of another one. -/
lemma Triple.mapM_forall₂ {γ : Type} {r : γ → α → Prop} {r' : γ → β → Prop} {zs : List γ}
    {xs : List α} (h : List.Forall₂ r zs xs) {f : α → Fallible σ ε β}
    (hf : ∀ c ∈ zs, ∀ a, r c a → Triple P (f a) (fun b s => P s ∧ r' c b) E) :
    Triple P (xs.mapM f) (fun bs s => P s ∧ List.Forall₂ r' zs bs) E := by
  induction h with
  | nil => exact Triple.pure fun s hs => ⟨hs, .nil⟩
  | @cons c a zs xs hca _ ih =>
    rw [List.mapM_cons]
    refine (hf c (by simp) a hca).bind_of fun b hb => ?_
    refine (ih fun d hd => hf d (by simp [hd])).bind_of fun bs hbs => ?_
    exact Triple.pure fun s hs => ⟨hs, .cons hb hbs⟩

/-- A loop that carries a value along: an invariant of the state and one of the value. -/
lemma Triple.foldlM {I : β → Prop} {xs : List α} {f : β → α → Fallible σ ε β}
    (hf : ∀ b, ∀ a ∈ xs, I b → Triple P (f b a) (fun b s => P s ∧ I b) E) {b : β} (hb : I b) :
    Triple P (xs.foldlM f b) (fun b s => P s ∧ I b) E := by
  induction xs generalizing b with
  | nil => exact Triple.pure fun s hs => ⟨hs, hb⟩
  | cons a xs ih =>
    rw [List.foldlM_cons]
    refine (hf b a (by simp) hb).bind_of fun b' hb' => ?_
    exact ih (fun c x hx => hf c x (by simp [hx])) hb'

/-! ### Runs that go through -/

lemma bind_eq_ok {x : Fallible σ ε α} {f : α → Fallible σ ε β} {s s' : σ} {b : β} :
    (x >>= f) s = (.ok b, s') ↔ ∃ a t, x s = (.ok a, t) ∧ f a t = (.ok b, s') := by
  rw [bind_apply]
  rcases x s with ⟨e | a, t⟩
  · constructor
    · intro h; cases h
    · rintro ⟨a, t', h, -⟩; cases h
  · constructor
    · intro h; exact ⟨a, t, rfl, h⟩
    · rintro ⟨a', t', h, hf⟩
      cases h
      exact hf

/-- To make something of the result leaves the state alone. -/
lemma snd_bind_pure (x : Fallible σ ε α) (f : α → β) (s : σ) :
    ((x >>= fun a => Pure.pure (f a)) s).2 = (x s).2 := by
  rw [bind_apply]
  rcases x s with ⟨_ | _, _⟩ <;> rfl

lemma bind_eq_error {x : Fallible σ ε α} {f : α → Fallible σ ε β} {s s' : σ} {e : ε} :
    (x >>= f) s = (.error e, s') ↔
      x s = (.error e, s') ∨ ∃ a t, x s = (.ok a, t) ∧ f a t = (.error e, s') := by
  rw [bind_apply]
  rcases x s with ⟨e' | a, t⟩
  · constructor
    · intro h; cases h; exact .inl rfl
    · rintro (h | ⟨a, t', h, -⟩)
      · cases h; rfl
      · cases h
  · constructor
    · intro h; exact .inr ⟨a, t, rfl, h⟩
    · rintro (h | ⟨a', t', h, hf⟩)
      · cases h
      · cases h
        exact hf

lemma ofExcept_ok_bind (a : α) (f : α → Fallible σ ε β) : (ofExcept (.ok a) >>= f) = f a :=
  funext fun s => bind_of_ok (ofExcept_apply (.ok a) s)

/-- A loop whose rounds go through and leave the state alone. -/
lemma mapM_of_ok {xs : List α} {f : α → Fallible σ ε β} {g : α → β} {s : σ}
    (h : ∀ a ∈ xs, f a s = (.ok (g a), s)) : xs.mapM f s = (.ok (xs.map g), s) := by
  induction xs with
  | nil => rfl
  | cons a xs ih =>
    rw [List.mapM_cons, bind_of_ok (h a (by simp)), bind_of_ok (ih fun b hb => h b (by simp [hb]))]
    rfl

end EntityStore.Fallible

namespace EntityStore

lemma ok_bind {ε α β : Type} (a : α) (f : α → Except ε β) : (Except.ok a >>= f) = f a := rfl

lemma except_bind_eq_ok {ε α β : Type} {x : Except ε α} {f : α → Except ε β} {b : β} :
    (x >>= f) = .ok b ↔ ∃ a, x = .ok a ∧ f a = .ok b := by
  rcases x with e | a
  · constructor
    · intro h; cases h
    · rintro ⟨a, h, -⟩; cases h
  · constructor
    · intro h; exact ⟨a, rfl, h⟩
    · rintro ⟨a', h, hf⟩
      cases h
      exact hf

/-- Computations on the elements of a list have results in its order. -/
lemma mapM_ok_of_forall₂ {ε α β : Type} {f : α → Except ε β} {as : List α} {bs : List β}
    (h : List.Forall₂ (fun a b => f a = .ok b) as bs) : as.mapM f = .ok bs := by
  induction h with
  | nil => rfl
  | cons h _ ih =>
    rw [List.mapM_cons, h, ok_bind, ih]
    rfl

/-- What is related to a list element by element is related to an element. -/
lemma exists_mem_of_forall₂ {α β : Type} {R : α → β → Prop} {l : List α} {l' : List β}
    (h : List.Forall₂ R l l') {b : β} (hb : b ∈ l') : ∃ a ∈ l, R a b := by
  induction h with
  | nil => simp at hb
  | @cons a b' l l' hab _ ih =>
    rcases List.mem_cons.mp hb with rfl | hb
    · exact ⟨a, by simp, hab⟩
    · obtain ⟨a', ha', h'⟩ := ih hb
      exact ⟨a', by simp [ha'], h'⟩

end EntityStore
