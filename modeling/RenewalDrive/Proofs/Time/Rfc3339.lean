import RenewalDrive.Proofs.Text.Numeral
import RenewalDrive.Proofs.Time.Calendar
import RenewalDrive.Time.Rfc3339

/-!
# Written instants are read back

The written form of every instant is read as that instant, whatever its year is and also in
a leap second.
-/

namespace RenewalDrive

namespace Text

theorem trimStart_of_not_blank {c : Char} {rest : List Char} (h : isBlank c = false) :
    trimStart (c :: rest) = c :: rest := by
  rw [trimStart, List.dropWhile_cons_of_neg (by simp [h])]

def NoDigitAhead (rest : List Char) : Prop :=
  forall c, rest.head? = some c -> isDigit c = false

theorem noDigitAhead_cons {c : Char} {rest : List Char} (h : isDigit c = false) :
    NoDigitAhead (c :: rest) := by
  intro d hd
  cases hd
  exact h

theorem NoDigitAhead.takeWhile_eq {rest : List Char} (h : NoDigitAhead rest) :
    rest.takeWhile isDigit = [] := by
  cases rest with
  | nil =>
      rfl
  | cons c rest =>
      exact List.takeWhile_cons_of_neg (by simp [h c rfl])

theorem NoDigitAhead.dropWhile_eq {rest : List Char} (h : NoDigitAhead rest) :
    rest.dropWhile isDigit = rest := by
  cases rest with
  | nil =>
      rfl
  | cons c rest =>
      exact List.dropWhile_cons_of_neg (by simp [h c rfl])

theorem NoDigitAhead.take {rest : List Char} (h : NoDigitAhead rest) (n : Nat) :
    NoDigitAhead (rest.take n) := by
  intro c hc
  cases n with
  | zero =>
      cases hc
  | succ n =>
      apply h c
      cases rest with
      | nil =>
          cases hc
      | cons d rest =>
          exact hc

theorem takeWhile_digits {run rest : List Char}
    (hrun : forall c, c ∈ run -> isDigit c = true) (hrest : NoDigitAhead rest) :
    (run ++ rest).takeWhile isDigit = run := by
  rw [List.takeWhile_append_of_pos hrun, hrest.takeWhile_eq, List.append_nil]

theorem takeWhile_digits_take {run rest : List Char} {n : Nat}
    (hrun : forall c, c ∈ run -> isDigit c = true) (hrest : NoDigitAhead rest)
    (hn : run.length ≤ n) : ((run ++ rest).take n).takeWhile isDigit = run := by
  rw [List.take_append, List.take_of_length_le hn]
  exact takeWhile_digits hrun (hrest.take _)

end Text

namespace Rfc3339

/-!
## Scans
-/

/-- A scan takes a text from the front of what is left, and yields a value. -/
def Scan.Takes {α : Type} (scan : Scan α) (text : List Char) (value : α) (rest : List Char) :
    Prop :=
  scan.run (text ++ rest) = .ok (value, rest)

section

variable {α β : Type} {rest : List Char}

theorem Scan.takes_pure (value : α) : Scan.Takes (pure value) [] value rest :=
  rfl

theorem Scan.Takes.bind {scan : Scan α} {next : α -> Scan β} {first second : List Char} {a : α}
    {b : β} (hfirst : scan.Takes first a (second ++ rest))
    (hsecond : (next a).Takes second b rest) : (scan >>= next).Takes (first ++ second) b rest := by
  unfold Scan.Takes at *
  rw [List.append_assoc, StateT.run_bind, hfirst]
  exact hsecond

theorem Scan.Takes.silent {scan : Scan α} {next : α -> Scan β} {text : List Char} {a : α} {b : β}
    (hfirst : scan.Takes [] a (text ++ rest)) (hsecond : (next a).Takes text b rest) :
    (scan >>= next).Takes text b rest :=
  hfirst.bind hsecond

theorem blanks_takes {c : Char} (h : Text.isBlank c = false) :
    blanks.Takes [] () (c :: rest) :=
  congrArg (fun text => Except.ok ((), text)) (Text.trimStart_of_not_blank h)

theorem expect_takes (c : Char) : (expect c).Takes [c] () rest := by
  change (if c = c then (set rest : Scan Unit) else throw .invalid).run (c :: rest) = _
  rw [if_pos rfl]
  rfl

/-- Digits are taken as one run when the window shows them all and no digit follows. -/
theorem digits_takes (window : List Char -> List Char) {run : List Char} (hne : run ≠ [])
    (hrun : forall c, c ∈ run -> Text.isDigit c = true)
    (hwindow : (window (run ++ rest)).takeWhile Text.isDigit = run)
    (hle : Text.numeralValue run ≤ digitsLimit) :
    (digits window).Takes run (Text.numeralValue run, run.length) rest := by
  rcases List.exists_cons_of_ne_nil hne with ⟨first, more, rfl⟩
  have hfirst : Text.isDigit first = true := hrun first List.mem_cons_self
  rw [List.cons_append] at hwindow
  unfold Scan.Takes digits
  rw [StateT.run_bind, StateT.run_get, List.cons_append]
  simp only [pure_bind, hfirst, if_true, hwindow]
  rw [if_neg (Nat.not_lt.mpr hle), ← List.cons_append, List.drop_left]
  rfl

end

/-!
## Parts of a written instant
-/

section

variable {rest : List Char} {width n : Nat}

theorem digits_takes_numeral (window : List Char -> List Char)
    (hwindow : (window (Text.paddedNumeral width n ++ rest)).takeWhile Text.isDigit =
      Text.paddedNumeral width n) (hle : n ≤ digitsLimit) :
    (digits window).Takes (Text.paddedNumeral width n)
      (n, (Text.paddedNumeral width n).length) rest := by
  have hrun := digits_takes window Text.paddedNumeral_ne_nil
    (fun c => Text.isDigit_of_mem_paddedNumeral) hwindow
  rw [Text.numeralValue_paddedNumeral] at hrun
  exact hrun hle

theorem digits_takes_padded (hwidth : 0 < width) (hn : n < 10 ^ width) (hle : n ≤ digitsLimit)
    (hrest : Text.NoDigitAhead rest) {window : Nat} (hwindow : width ≤ window) :
    (digits (List.take window)).Takes (Text.paddedNumeral width n) (n, width) rest := by
  have hlength := Text.length_paddedNumeral hwidth hn
  have hrun := digits_takes_numeral (List.take window)
    (Text.takeWhile_digits_take (fun c => Text.isDigit_of_mem_paddedNumeral) hrest
      (hlength.trans_le hwindow)) hle
  rwa [hlength] at hrun

theorem blanks_takes_numeral : blanks.Takes [] () (Text.paddedNumeral width n ++ rest) := by
  rcases List.exists_cons_of_ne_nil (@Text.paddedNumeral_ne_nil n width) with ⟨c, more, heq⟩
  have hdigit : Text.isDigit c = true :=
    Text.isDigit_of_mem_paddedNumeral (heq ▸ List.mem_cons_self)
  rw [heq]
  exact blanks_takes (Text.isBlank_of_isDigit hdigit)

theorem number_takes {low high : Nat} (hwidth : 0 < width) (hfits : high < 10 ^ width)
    (hlimit : high ≤ digitsLimit) (hlow : low ≤ n) (hhigh : n ≤ high)
    (hrest : Text.NoDigitAhead rest) :
    (number width low high).Takes (Text.paddedNumeral width n) n rest := by
  refine blanks_takes_numeral.silent ?_
  rw [← List.append_nil (Text.paddedNumeral width n)]
  refine Scan.Takes.bind (digits_takes_padded hwidth (Nat.lt_of_le_of_lt hhigh hfits)
    (Nat.le_trans hhigh hlimit) hrest (Nat.le_refl width)) ?_
  change StateT.run (if low ≤ n ∧ n ≤ high then pure n else throw Fault.outOfRange) rest = _
  rw [if_pos ⟨hlow, hhigh⟩]
  rfl

theorem fraction_takes_digits (hwidth : 0 < width) (hle : width ≤ 9) (hn : n < 10 ^ width)
    (hrest : Text.NoDigitAhead rest) :
    fraction.Takes ('.' :: Text.paddedNumeral width n) (n * 10 ^ (9 - width)) rest := by
  have hlimit : n ≤ digitsLimit :=
    Nat.le_trans (Nat.le_of_lt hn) (Nat.le_trans (Nat.pow_le_pow_right (by decide) hle) (by decide))
  have hrun := digits_takes_padded hwidth hn hlimit hrest hle
  change ((digits (List.take 9)).run (Text.paddedNumeral width n ++ rest) >>= fun taken =>
    .ok (taken.1.1 * Nat.pow 10 (9 - taken.1.2), taken.2.dropWhile Text.isDigit)) = _
  rw [hrun]
  change Except.ok (_, rest.dropWhile Text.isDigit) = _
  rw [hrest.dropWhile_eq]
  rfl

theorem fraction_takes_nothing (hpoint : rest.head? ≠ some '.') : fraction.Takes [] 0 rest := by
  cases rest with
  | nil =>
      rfl
  | cons c more =>
      have hc : c ≠ '.' := fun heq => hpoint (congrArg some heq)
      unfold Scan.Takes fraction
      rw [List.nil_append, StateT.run_bind, StateT.run_get, pure_bind]
      split
      next heq =>
        exact absurd (List.cons.inj heq).1 hc
      next =>
        rfl

theorem fraction_takes {nanoseconds : Nat} (h : nanoseconds < Span.perSecond)
    (hrest : Text.NoDigitAhead rest) (hpoint : rest.head? ≠ some '.') :
    fraction.Takes (fractionText nanoseconds) nanoseconds rest := by
  unfold Span.perSecond at h
  unfold fractionText
  split
  next hzero =>
    rw [hzero]
    exact fraction_takes_nothing hpoint
  next =>
    split
    next hmilli =>
      have hrun := fraction_takes_digits (by decide : 0 < 3) (by decide)
        (by omega : nanoseconds / 1000000 < 10 ^ 3) hrest
      rwa [show nanoseconds / 1000000 * 10 ^ (9 - 3) = nanoseconds by omega] at hrun
    next =>
      split
      next hmicro =>
        have hrun := fraction_takes_digits (by decide : 0 < 6) (by decide)
          (by omega : nanoseconds / 1000 < 10 ^ 6) hrest
        rwa [show nanoseconds / 1000 * 10 ^ (9 - 6) = nanoseconds by omega] at hrun
      next =>
        have hrun := fraction_takes_digits (by decide : 0 < 9) (Nat.le_refl 9)
          (by omega : nanoseconds < 10 ^ 9) hrest
        rwa [Nat.sub_self, Nat.pow_zero, Nat.mul_one] at hrun

theorem accept_year {year : Int} (hlow : -2147483648 ≤ year) (hhigh : year ≤ 2147483647) :
    ((if -2147483648 ≤ year ∧ year ≤ 2147483647 then pure year else throw Fault.outOfRange :
      Scan Int)).run rest = .ok (year, rest) := by
  rw [if_pos ⟨hlow, hhigh⟩]
  rfl

theorem year_takes_plain (h : n ≤ 9999) (hrest : Text.NoDigitAhead rest) :
    Rfc3339.year.Takes (Text.paddedNumeral 4 n) n rest := by
  have hrun := digits_takes_padded (by decide : 0 < 4) (by omega : n < 10 ^ 4)
    (by unfold digitsLimit; omega) hrest (Nat.le_refl 4)
  have hdigits : forall c, c ∈ Text.paddedNumeral 4 n -> Text.isDigit c = true :=
    fun c => Text.isDigit_of_mem_paddedNumeral
  refine blanks_takes_numeral.silent ?_
  rcases List.exists_cons_of_ne_nil (@Text.paddedNumeral_ne_nil n 4) with ⟨c, more, heq⟩
  rw [heq] at hrun hdigits ⊢
  have hdigit : Text.isDigit c = true := hdigits c List.mem_cons_self
  have hsign : c ≠ '-' ∧ c ≠ '+' := by
    constructor
    · rintro rfl
      exact absurd hdigit (by decide)
    · rintro rfl
      exact absurd hdigit (by decide)
  unfold Scan.Takes
  rw [StateT.run_bind, StateT.run_get, pure_bind]
  split
  next hminus =>
    exact absurd (List.cons.inj hminus).1 hsign.1
  next hplus =>
    exact absurd (List.cons.inj hplus).1 hsign.2
  next =>
    rw [StateT.run_bind, hrun]
    exact accept_year (Int.le_trans (by decide) (Int.natCast_nonneg n))
      (Int.le_trans (Int.ofNat_le.mpr h) (by decide))

theorem digits_behind_sign {year : Int} (signed : Nat -> Int) (hsigned : signed year.natAbs = year)
    (hlow : -2147483648 ≤ year) (hhigh : year ≤ 2147483647) (hrest : Text.NoDigitAhead rest) :
    (do
      let taken ← digits id
      let value ← pure (signed taken.1)
      if -2147483648 ≤ value ∧ value ≤ 2147483647 then pure value else throw Fault.outOfRange :
        Scan Int).run (Text.paddedNumeral 4 year.natAbs ++ rest) = .ok (year, rest) := by
  have hrun : (digits id).Takes (Text.paddedNumeral 4 year.natAbs)
      (year.natAbs, (Text.paddedNumeral 4 year.natAbs).length) rest :=
    digits_takes_numeral id
      (Text.takeWhile_digits (fun _ => Text.isDigit_of_mem_paddedNumeral) hrest)
      (by unfold digitsLimit; omega)
  rw [StateT.run_bind, hrun]
  change ((if -2147483648 ≤ signed year.natAbs ∧ signed year.natAbs ≤ 2147483647
    then pure (signed year.natAbs) else throw Fault.outOfRange : Scan Int)).run rest = _
  rw [hsigned]
  exact accept_year hlow hhigh

theorem year_takes {year : Int} (hlow : -2147483648 ≤ year) (hhigh : year ≤ 2147483647)
    (hrest : Text.NoDigitAhead rest) : Rfc3339.year.Takes (yearText year) year rest := by
  unfold yearText
  split
  next hplain =>
    have hyear := year_takes_plain (by omega : year.natAbs ≤ 9999) hrest
    rwa [Int.natAbs_of_nonneg hplain.1] at hyear
  next =>
    split
    next =>
      have hblanks : blanks.Takes [] () ('-' :: Text.paddedNumeral 4 year.natAbs ++ rest) :=
        blanks_takes (by decide)
      refine hblanks.silent ?_
      exact digits_behind_sign (fun n => -(n : Int)) (by omega) hlow hhigh hrest
    next =>
      have hblanks : blanks.Takes [] () ('+' :: Text.paddedNumeral 4 year.natAbs ++ rest) :=
        blanks_takes (by decide)
      refine hblanks.silent ?_
      exact digits_behind_sign (fun n => (n : Int)) (by omega) hlow hhigh hrest

theorem separator_takes : separator.Takes ['T'] () rest := by
  change (if 'T' = 'T' ∨ 'T' = 't' ∨ 'T' = ' ' then (set rest : Scan Unit)
    else throw .invalid).run ('T' :: rest) = _
  rw [if_pos (Or.inl rfl)]
  rfl

theorem startsWithUtc_of_z : startsWithUtc ('Z' :: rest) = false := by
  simp [startsWithUtc, isLetter]

theorem offset_takes : offset.Takes ['Z'] 0 rest := by
  have hblanks : blanks.Takes [] () (['Z'] ++ rest) := blanks_takes (by decide)
  refine hblanks.silent ?_
  change StateT.run (if startsWithUtc ('Z' :: rest) = true then _ else _) ('Z' :: rest) = _
  rw [startsWithUtc_of_z]
  rfl

end

/-!
## Written instants
-/

section

variable {t : Instant}

theorem secondOfDay_lt : t.secondOfDay < 86400 := by
  unfold Instant.secondOfDay
  omega

/-- The second that is written: the leap second after 59 is 60. -/
def writtenSecond (t : Instant) : Nat :=
  if t.inLeapSecond then t.secondOfDay % 60 + 1 else t.secondOfDay % 60

def writtenFraction (t : Instant) : Nat :=
  if t.inLeapSecond then t.fraction - Span.perSecond else t.fraction

theorem inLeapSecond_iff : t.inLeapSecond = true ↔ Span.perSecond ≤ t.fraction := by
  simp [Instant.inLeapSecond]

theorem secondOfDay_of_leap (h : t.inLeapSecond = true) : t.secondOfDay % 60 = 59 := by
  rcases t.inRange.2.2 with hfraction | ⟨_, hsecond⟩
  · exact absurd (inLeapSecond_iff.mp h) (Nat.not_le.mpr hfraction)
  · unfold Instant.secondOfDay
    omega

theorem writtenFraction_lt : writtenFraction t < Span.perSecond := by
  unfold writtenFraction
  rcases t.inRange.2.2 with hfraction | ⟨hfraction, _⟩
  · rw [if_neg fun h => Nat.not_le.mpr hfraction (inLeapSecond_iff.mp h)]
    exact hfraction
  · split
    next =>
      omega
    next hnot =>
      exact Nat.not_le.mp fun h => hnot (inLeapSecond_iff.mpr h)

def writtenReading (t : Instant) : Reading where
  date := t.date
  hour := t.secondOfDay / 3600
  minute := t.secondOfDay / 60 % 60
  second := writtenSecond t
  fraction := writtenFraction t
  offset := 0

theorem toDays_date : t.date.toDays = t.day :=
  Date.toDays_ofDays t.day

theorem localDate_date : LocalDate t.date := by
  have hfirst := t.inRange.1
  have hlast := t.inRange.2.1
  refine ⟨Date.valid_ofDays t.day, ?_⟩
  rw [toDays_date]
  unfold Instant.day Instant.firstSecond Instant.lastSecond at *
  omega

theorem ofParts?_self : Instant.ofParts? t.second t.fraction = some t :=
  dif_pos t.inRange

theorem localSecond_eq {second : Nat} (h : second = t.secondOfDay % 60) :
    t.date.toDays * 86400 +
        (3600 * (t.secondOfDay / 3600 : Nat) + 60 * (t.secondOfDay / 60 % 60 : Nat) + second :
          Int) = t.second := by
  rw [toDays_date, h]
  unfold Instant.day Instant.secondOfDay
  omega

theorem toInstant_eq {second fraction : Nat} (hsecond : second = t.secondOfDay % 60)
    (hfraction : fraction = t.fraction)
    (hread : second = if (writtenReading t).second = 60 then 59 else (writtenReading t).second)
    (hread' : fraction = if (writtenReading t).second = 60
      then (writtenReading t).fraction + Span.perSecond else (writtenReading t).fraction) :
    (writtenReading t).toInstant = .ok t := by
  have hlocal : LocalDate (writtenReading t).date := localDate_date
  have hoffset : (writtenReading t).offset.natAbs < 86400 := Nat.zero_lt_succ _
  unfold Reading.toInstant
  rw [if_pos hlocal, if_pos hoffset]
  simp only [← hread, ← hread']
  have hparts : Instant.ofParts?
      ((writtenReading t).date.toDays * 86400 +
        (3600 * ((writtenReading t).hour : Int) + 60 * ((writtenReading t).minute : Int) + second) -
          (writtenReading t).offset) fraction = some t := by
    rw [hfraction]
    change Instant.ofParts? (t.date.toDays * 86400 + (3600 * (t.secondOfDay / 3600 : Nat) +
      60 * (t.secondOfDay / 60 % 60 : Nat) + second : Int) - 0) t.fraction = some t
    rw [localSecond_eq hsecond, Int.sub_zero]
    exact ofParts?_self
  rw [hparts]

theorem toInstant_writtenReading : (writtenReading t).toInstant = .ok t := by
  have hlt : t.secondOfDay % 60 < 60 := Nat.mod_lt _ (by decide)
  refine toInstant_eq rfl rfl ?_ ?_
  · simp only [writtenReading, writtenSecond]
    split
    next hleap =>
      rw [secondOfDay_of_leap hleap]
      rfl
    next =>
      rw [if_neg (Nat.ne_of_lt hlt)]
  · simp only [writtenReading, writtenSecond, writtenFraction]
    split
    next hleap =>
      rw [secondOfDay_of_leap hleap, if_pos rfl]
      exact (Nat.sub_add_cancel (inLeapSecond_iff.mp hleap)).symm
    next =>
      rw [if_neg (Nat.ne_of_lt hlt)]

theorem year_date : -2147483648 ≤ t.date.year ∧ t.date.year ≤ 2147483647 := by
  have hfirst := t.inRange.1
  have hlast := t.inRange.2.1
  have hyear : 400 * ((t.day + Date.epochDays) / 146097) ≤ t.date.year ∧
      t.date.year ≤ 400 * ((t.day + Date.epochDays) / 146097) + 400 := Date.year_ofDays t.day
  unfold Instant.day Instant.firstSecond Instant.lastSecond Date.epochDays at *
  omega

theorem daysInMonth_le (year : Int) (month : Nat) : Date.daysInMonth year month ≤ 31 := by
  unfold Date.daysInMonth
  split
  · split <;> decide
  · split <;> decide

theorem writtenSecond_le : writtenSecond t ≤ 60 := by
  unfold writtenSecond
  split <;> omega

theorem writeChars_eq :
    writeChars t = yearText t.date.year ++ (['-'] ++ (Text.paddedNumeral 2 t.date.month ++
      (['-'] ++ (Text.paddedNumeral 2 t.date.day ++ (['T'] ++
        (Text.paddedNumeral 2 (t.secondOfDay / 3600) ++ ([':'] ++
          (Text.paddedNumeral 2 (t.secondOfDay / 60 % 60) ++ ([':'] ++
            (Text.paddedNumeral 2 (writtenSecond t) ++
              (fractionText (writtenFraction t) ++ (['Z'] ++ [])))))))))))) := by
  simp only [writeChars, writtenSecond, writtenFraction, List.append_assoc, List.cons_append,
    List.nil_append]

theorem noDigitAhead_fraction :
    Text.NoDigitAhead (fractionText (writtenFraction t) ++ (['Z'] ++ []) ++ []) := by
  unfold fractionText
  split
  next =>
    exact Text.noDigitAhead_cons (by decide)
  next =>
    split
    next =>
      exact Text.noDigitAhead_cons (by decide)
    next =>
      split
      next =>
        exact Text.noDigitAhead_cons (by decide)
      next =>
        exact Text.noDigitAhead_cons (by decide)

theorem reading_takes : reading.Takes (writeChars t) (writtenReading t) [] := by
  have hvalid := (localDate_date (t := t)).1
  have hday := Nat.le_trans hvalid.2.2.2 (daysInMonth_le _ _)
  have hsecond := secondOfDay_lt (t := t)
  rw [writeChars_eq]
  refine (year_takes year_date.1 year_date.2 (Text.noDigitAhead_cons (by decide))).bind ?_
  refine (blanks_takes (by decide)).silent ?_
  refine (expect_takes '-').bind ?_
  refine (number_takes (by decide) (by decide) (by decide) hvalid.1 hvalid.2.1
    (Text.noDigitAhead_cons (by decide))).bind ?_
  refine (blanks_takes (by decide)).silent ?_
  refine (expect_takes '-').bind ?_
  refine (number_takes (by decide) (by decide) (by decide) hvalid.2.2.1 hday
    (Text.noDigitAhead_cons (by decide))).bind ?_
  refine (separator_takes).bind ?_
  refine (number_takes (by decide) (by decide) (by decide) (Nat.zero_le _) (by omega)
    (Text.noDigitAhead_cons (by decide))).bind ?_
  refine (blanks_takes (by decide)).silent ?_
  refine (expect_takes ':').bind ?_
  refine (number_takes (by decide) (by decide) (by decide) (Nat.zero_le _) (by omega)
    (Text.noDigitAhead_cons (by decide))).bind ?_
  refine (blanks_takes (by decide)).silent ?_
  refine (expect_takes ':').bind ?_
  refine (number_takes (by decide) (by decide) (by decide) (Nat.zero_le _) writtenSecond_le
    noDigitAhead_fraction).bind ?_
  refine (fraction_takes writtenFraction_lt (Text.noDigitAhead_cons (by decide))
    (by decide)).bind ?_
  refine (blanks_takes (by decide)).silent ?_
  exact offset_takes.bind (Scan.takes_pure _)

end

/-- The written form of an instant is read as that instant. -/
theorem read_write (t : Instant) : read (write t) = .ok t := by
  have hreading := reading_takes (t := t)
  unfold Scan.Takes at hreading
  rw [List.append_nil] at hreading
  unfold read write readChars
  rw [String.toList_ofList, hreading]
  exact toInstant_writtenReading

end Rfc3339
end RenewalDrive
