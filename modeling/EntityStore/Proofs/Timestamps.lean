import EntityStore.Field
import Mathlib.Algebra.Ring.Nat

/-!
Dates and times kept as text. What is written of a date and time is read back as the same date and
time, whatever of the three forms it was written in: each number that is read takes just the digits
that were written for it, since they are as many as it may take or are followed by no further one.

A leap second after any but second 59 is the exception. It is written like the second after it, and
that is what it is read back as.
-/

namespace EntityStore.Calendar

open Text

/-! ### Digits -/

lemma isDigit_padded {width n : Nat} {c : Char} (h : c ∈ padded width n) : c.isDigit := by
  rcases List.mem_append.mp h with h | h
  · rw [List.eq_of_mem_replicate h]
    rfl
  · exact Nat.isDigit_of_mem_toDigits (by decide) (by decide) h

lemma number_padded (width n : Nat) : number (padded width n) = n := by
  have hzeros : ∀ k, Nat.ofDigitChars 10 (List.replicate k '0') 0 = 0 := by
    intro k
    induction k with
    | zero => rfl
    | succ k ih => exact ih
  change Nat.ofDigitChars 10 (padded width n) 0 = n
  rw [padded, Nat.ofDigitChars_append, hzeros, Nat.ofDigitChars_toDigits (by decide) (by decide)]

lemma padded_ne_nil (width n : Nat) : padded width n ≠ [] := by
  intro h
  exact Nat.toDigits_ne_nil (List.append_eq_nil_iff.mp h).2

/-- Written digits do not begin with anything else. -/
lemma padded_append_ne_cons {c : Char} (h : c.isDigit = false) (width n : Nat)
    (rest s : List Char) : padded width n ++ rest ≠ c :: s := by
  obtain ⟨d, ds, hd⟩ := List.exists_cons_of_ne_nil (padded_ne_nil width n)
  have hdigit : d.isDigit := isDigit_padded (hd ▸ List.mem_cons_self)
  intro heq
  rw [hd, List.cons_append, List.cons.injEq] at heq
  rw [heq.1, h] at hdigit
  cases hdigit

lemma length_padded {width n : Nat} (hw : 0 < width) (hn : n < 10 ^ width) :
    (padded width n).length = width := by
  have hlength := (Nat.length_toDigits_le_iff (b := 10) (by decide) hw).mpr hn
  rw [padded, List.length_append, List.length_replicate]
  omega

lemma isBlank_of_isDigit {c : Char} (h : c.isDigit) : isBlank c = false := by
  have hrange : 48 ≤ c.toNat ∧ c.toNat ≤ 57 := by
    simpa [Char.isDigit, UInt32.le_iff_toNat_le] using h
  simp only [isBlank, Bool.or_eq_false_iff, Bool.and_eq_false_iff, beq_eq_false_iff_ne,
    decide_eq_false_iff_not]
  omega

/-- There is nothing to pass over in front of digits. -/
lemma skipBlanks_digits {ds rest : List Char} (hne : ds ≠ []) (hd : ∀ c ∈ ds, c.isDigit) :
    skipBlanks (ds ++ rest) = ds ++ rest := by
  obtain ⟨c, cs, rfl⟩ := List.exists_cons_of_ne_nil hne
  exact List.dropWhile_cons_of_neg (by simp [isBlank_of_isDigit (hd c (by simp))])

/-- Digits are read as far as they go, where no more of them are taken or no further one follows. -/
lemma digits?_append {most : Nat} {ds s : List Char} (hne : ds ≠ [])
    (hd : ∀ c ∈ ds, c.isDigit) (hmost : ds.length ≤ most)
    (hrest : ds.length = most ∨ s.takeWhile Char.isDigit = []) :
    digits? most (ds ++ s) = some (ds, s) := by
  have htail : (s.take (most - ds.length)).takeWhile Char.isDigit = [] := by
    rcases hrest with h | h
    · rw [h, Nat.sub_self, List.take_zero, List.takeWhile_nil]
    · rw [← List.take_takeWhile, h, List.take_nil]
  have htake : ((ds ++ s).take most).takeWhile Char.isDigit = ds := by
    rw [List.take_append, List.take_of_length_le hmost, List.takeWhile_append_of_pos hd, htail,
      List.append_nil]
  simp only [digits?, htake, List.isEmpty_iff, hne, if_false, List.drop_left]

/-- Two digits are a small number, whatever follows. -/
lemma small?_padded {n : Nat} (h : n < 100) (rest : List Char) :
    small? (padded 2 n ++ rest) = some (n, rest) := by
  have hlength : (padded 2 n).length = 2 := length_padded (by decide) h
  have hread := digits?_append (s := rest) (padded_ne_nil 2 n) (fun c => isDigit_padded)
    (Nat.le_of_eq hlength) (.inl hlength)
  rw [small?, skipBlanks_digits (padded_ne_nil 2 n) fun c => isDigit_padded]
  simp only [hread, Option.map_some, number_padded]

lemma literal?_self (c : Char) (s : List Char) : literal? c (c :: s) = some s := by
  simp [literal?]

/-! ### Dates -/

/-- A year is read up to the dash that follows it, with its sign if it has one. -/
lemma year?_written (y : Int) (rest : List Char) :
    year? (writtenYear y ++ '-' :: rest) = some (y, '-' :: rest) := by
  have hsigned : ∀ n, digits? (padded 4 n ++ '-' :: rest).length (padded 4 n ++ '-' :: rest) =
      some (padded 4 n, '-' :: rest) := fun n =>
    digits?_append (padded_ne_nil 4 n) (fun c => isDigit_padded) (by simp) (.inr rfl)
  unfold writtenYear
  split
  · have hskip : skipBlanks ('-' :: padded 4 y.natAbs ++ '-' :: rest) =
        '-' :: (padded 4 y.natAbs ++ '-' :: rest) := rfl
    simp only [year?, hskip, hsigned, Option.map_some, number_padded]
    rw [show -(y.natAbs : Int) = y by omega]
  · split
    · have hskip : skipBlanks ('+' :: padded 4 y.natAbs ++ '-' :: rest) =
          '+' :: (padded 4 y.natAbs ++ '-' :: rest) := rfl
      simp only [year?, hskip, hsigned, Option.map_some, number_padded]
      rw [show (y.natAbs : Int) = y by omega]
    · have hlength : (padded 4 y.natAbs).length = 4 := length_padded (by decide) (by omega)
      have hread := digits?_append (s := '-' :: rest) (padded_ne_nil 4 y.natAbs)
        (fun c => isDigit_padded) (by omega) (.inl hlength)
      -- Without a sign no more than four digits are taken, and there are just four.
      have hsign : ∀ {c : Char}, c.isDigit = false → ∀ s,
          padded 4 y.natAbs ++ '-' :: rest ≠ c :: s := fun h => padded_append_ne_cons h 4 _ _
      rw [year?, skipBlanks_digits (padded_ne_nil 4 y.natAbs) fun c => isDigit_padded]
      split
      · exact absurd ‹_› (hsign rfl _)
      · exact absurd ‹_› (hsign rfl _)
      · simp only [hread, Option.map_some, number_padded]
        rw [show (y.natAbs : Int) = y by omega]

namespace Date

lemma month_le (d : Date) : d.month ≤ 12 := by
  have hday := d.day_mem
  unfold daysIn at hday
  split at hday <;> omega

lemma day_le (d : Date) : d.day ≤ 31 := by
  have hday := d.day_mem
  unfold daysIn at hday
  split at hday <;> first | omega | (split at hday <;> omega)

/-- The parts of a date make it up. -/
lemma of?_parts (d : Date) : Date.of? d.year d.month d.day = some d :=
  dif_pos ⟨d.year_mem, d.day_mem⟩

lemma date?_written (d : Date) (rest : List Char) :
    date? (d.written ++ rest) = some (d, rest) := by
  have hmonth := d.month_le
  have hday := d.day_le
  have htext : d.written ++ rest = writtenYear d.year ++ '-' ::
      (padded 2 d.month ++ '-' :: (padded 2 d.day ++ rest)) := by simp [written]
  simp only [date?, htext, year?_written, literal?_self,
    small?_padded (show d.month < 100 by omega), small?_padded (show d.day < 100 by omega),
    of?_parts, Option.bind_eq_bind, Option.bind_some]

end Date

/-! ### Times -/

lemma fraction?_digits {width n : Nat} (hw : 0 < width) (hmost : width ≤ 9) (hn : n < 10 ^ width) :
    fraction? ('.' :: padded width n) = some (n * 10 ^ (9 - width), []) := by
  have hlength := length_padded hw hn
  have hread := digits?_append (s := []) (padded_ne_nil width n) (fun c => isDigit_padded)
    (Nat.le_refl _) (.inl rfl)
  rw [List.append_nil] at hread
  have hnine : (padded width n).take 9 = padded width n := List.take_of_length_le (by omega)
  simp only [fraction?, hread, Option.map_some]
  rw [hnine, number_padded, hlength]
  rfl

/-- Three, six or nine digits say exactly how many nanoseconds there are. -/
lemma fraction?_written {nano : Nat} (h : nano < 10 ^ 9) :
    fraction? (writtenFraction nano) = some (nano, []) := by
  unfold writtenFraction
  split
  · rename_i hzero
    rw [hzero]
    rfl
  · split
    · rw [fraction?_digits (by decide) (by decide) (by omega)]
      simp only [Option.some.injEq, Prod.mk.injEq, and_true]
      omega
    · split
      · rw [fraction?_digits (by decide) (by decide) (by omega)]
        simp only [Option.some.injEq, Prod.mk.injEq, and_true]
        omega
      · rw [fraction?_digits (by decide) (by decide) h]
        simp

namespace Time

/-- The time can be made of its parts: it is no leap second, or one at the end of its minute. -/
def Regular (t : Time) : Prop := t.nano < 1000000000 ∨ t.second = 59

instance (t : Time) : Decidable t.Regular := inferInstanceAs (Decidable (_ ∨ _))

/-- The time that the written form says. A leap second within a minute is written like the second
after it. -/
def asWritten (t : Time) : Time :=
  if h : t.Regular then t
  else
    { t with
      second := t.second + 1
      nano := t.nano - 1000000000
      second_lt := by
        have hlast : t.second ≠ 59 := fun hlast => h (.inr hlast)
        have := t.second_lt
        omega
      nano_lt := by
        have := t.nano_lt
        omega }

lemma asWritten_eq_iff (t : Time) : t.asWritten = t ↔ t.Regular := by
  unfold asWritten
  split
  · simp [*]
  · rename_i h
    refine iff_of_false (fun heq => ?_) h
    have hsecond := congrArg second heq
    simp at hsecond

lemma of?_parts {t : Time} (h : t.Regular) : Time.of? t.hour t.minute t.second t.nano = some t :=
  dif_pos ⟨t.hour_lt, t.minute_lt, t.second_lt, h.imp_right (⟨·, t.nano_lt⟩)⟩

/-- The second that is written is 60 just in the leap second after 59, and then stands for 59. -/
lemma of?_read (t : Time) :
    (if t.second + t.nano / 1000000000 = 60 then
        Time.of? t.hour t.minute 59 (1000000000 + t.nano % 1000000000)
      else Time.of? t.hour t.minute (t.second + t.nano / 1000000000) (t.nano % 1000000000)) =
      some t.asWritten := by
  have hsecond := t.second_lt
  have hnano := t.nano_lt
  by_cases hregular : t.Regular
  · have hparts := of?_parts hregular
    rw [asWritten, dif_pos hregular]
    by_cases hleap : t.nano < 1000000000
    · rw [Nat.div_eq_of_lt hleap, Nat.mod_eq_of_lt hleap, Nat.add_zero, if_neg (by omega)]
      exact hparts
    · have hlast := hregular.resolve_left hleap
      rw [if_pos (by omega), show 1000000000 + t.nano % 1000000000 = t.nano by omega, ← hlast]
      exact hparts
  · obtain ⟨hleap, hlast⟩ := not_or.mp hregular
    rw [asWritten, dif_neg hregular, if_neg (by omega), show t.nano / 1000000000 = 1 by omega,
      show t.nano % 1000000000 = t.nano - 1000000000 by omega]
    exact dif_pos ⟨t.hour_lt, t.minute_lt, by omega, .inl (by omega)⟩

lemma time?_written (t : Time) : time? t.written = some (t.asWritten, []) := by
  have hhour := t.hour_lt
  have hminute := t.minute_lt
  have hsecond : t.second + t.nano / 1000000000 < 100 := by
    have := t.second_lt
    have := t.nano_lt
    omega
  have hnano : t.nano % 1000000000 < 10 ^ 9 := Nat.mod_lt _ (by decide)
  have hread := t.of?_read
  simp only [time?, written, List.append_assoc, List.cons_append,
    small?_padded (show t.hour < 100 by omega), small?_padded (show t.minute < 100 by omega),
    small?_padded hsecond, literal?_self, fraction?_written hnano, Option.bind_eq_bind,
    Option.bind_some]
  rw [← apply_ite (Option.bind · fun time => some (time, [])), hread, Option.bind_some]

/-- There is nothing to pass over in front of a time. -/
lemma skipBlanks_written (t : Time) : skipBlanks t.written = t.written := by
  rw [written, List.append_assoc, List.append_assoc]
  exact skipBlanks_digits (padded_ne_nil 2 t.hour) fun c => isDigit_padded

end Time

/-! ### Dates with times -/

namespace DateTime

/-- The date and time that the written form says. -/
def asWritten (x : DateTime) : DateTime := { x with time := x.time.asWritten }

lemma asWritten_eq_iff (x : DateTime) : x.asWritten = x ↔ x.time.Regular := by
  rw [← Time.asWritten_eq_iff]
  constructor
  · exact congrArg time
  · intro h
    rw [asWritten, h]

lemma asWritten_atMidnight (d : Date) : d.atMidnight.asWritten = d.atMidnight :=
  (asWritten_eq_iff _).mpr (.inl (show 0 < 1000000000 by decide))

lemma dateTimeWith?_written (c : Char) (x : DateTime) :
    dateTimeWith? c (x.writtenWith c) = some x.asWritten := by
  have hseparator : separator? c (c :: x.time.written) = some x.time.written := by
    unfold separator?
    split
    · rename_i hc
      rw [hc]
      exact congrArg some x.time.skipBlanks_written
    · exact literal?_self c _
  simp only [dateTimeWith?, writtenWith, Date.date?_written, hseparator, Time.time?_written,
    Option.bind_eq_bind, Option.bind_some]
  rfl

/-- What is written with a space is read so. -/
lemma ofText?_text (x : DateTime) : ofText? x.text = some x.asWritten := by
  rw [ofText?, text, String.toList_ofList, dateTimeWith?_written]
  rfl

/-- A `T` is not passed over in place of a space, and no number begins with it. -/
lemma ofText?_writtenWith_T (x : DateTime) :
    ofText? (String.ofList (x.writtenWith 'T')) = some x.asWritten := by
  have hspace : dateTimeWith? ' ' (x.writtenWith 'T') = none := by
    simp only [dateTimeWith?, writtenWith, Date.date?_written, Option.bind_eq_bind,
      Option.bind_some]
    rfl
  rw [ofText?, String.toList_ofList, hspace, dateTimeWith?_written]
  rfl

/-- A date alone is no date with a time. -/
lemma ofText?_date (d : Date) : ofText? (String.ofList d.written) = some d.atMidnight := by
  have hread : date? d.written = some (d, []) := by
    have h := d.date?_written []
    rwa [List.append_nil] at h
  have htimed : ∀ c, dateTimeWith? c d.written = none := by
    intro c
    simp only [dateTimeWith?, hread, Option.bind_eq_bind, Option.bind_some]
    unfold separator?
    split <;> rfl
  rw [ofText?, String.toList_ofList, htimed, htimed, dateOnly?, hread]
  rfl

/-- **Stored text is read back.** The text of any date and time, with a space or a `T` between its
parts, gives a field the date and time that it says, and a field of dates its date; so does the date
written alone. What it says is the date and time itself unless this is a leap second within a
minute. -/
theorem ofValue?_written (x : DateTime) :
    (FieldKind.dateTime.ofValue? (.text x.text) = some x.asWritten ∧
      FieldKind.dateTime.ofValue? (.text (String.ofList (x.writtenWith 'T'))) = some x.asWritten ∧
      FieldKind.date.ofValue? (.text x.text) = some x.date ∧
      FieldKind.date.ofValue? (.text (String.ofList (x.writtenWith 'T'))) = some x.date ∧
      FieldKind.date.ofValue? (.text (String.ofList x.date.written)) = some x.date) ∧
    (x.asWritten = x ↔ x.time.Regular) := by
  have hdate : ∀ {s : String} {y : DateTime}, ofText? s = some y →
      FieldKind.date.ofValue? (.text s) = some y.date := fun h => congrArg (Option.map date) h
  have halone := hdate (ofText?_date x.date)
  exact ⟨⟨x.ofText?_text, x.ofText?_writtenWith_T, hdate (y := x.asWritten) x.ofText?_text,
    hdate (y := x.asWritten) x.ofText?_writtenWith_T, halone⟩, x.asWritten_eq_iff⟩

/-- The leap second after 23:56:04, a third of it gone. -/
def midMinute : DateTime where
  date := ⟨2015, 6, 30, by decide, by decide⟩
  time := ⟨23, 56, 4, 1333333333, by decide, by decide, by decide, by decide⟩

/-- It is read back as 23:56:05, whether with a space or with a `T`. -/
theorem midMinute_reread :
    FieldKind.dateTime.ofValue? (.text midMinute.text) ≠ some midMinute ∧
      FieldKind.dateTime.ofValue? (.text (String.ofList (midMinute.writtenWith 'T'))) ≠
        some midMinute := by
  have hsecond : some midMinute.asWritten ≠ some midMinute := by decide
  have hspace : FieldKind.dateTime.ofValue? (.text midMinute.text) = some midMinute.asWritten :=
    ofText?_text midMinute
  have hT : FieldKind.dateTime.ofValue? (.text (String.ofList (midMinute.writtenWith 'T'))) =
      some midMinute.asWritten := ofText?_writtenWith_T midMinute
  exact ⟨hspace ▸ hsecond, hT ▸ hsecond⟩

end DateTime

end EntityStore.Calendar
