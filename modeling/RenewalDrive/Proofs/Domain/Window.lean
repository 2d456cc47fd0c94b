import RenewalDrive.Domain.Window
import RenewalDrive.Proofs.Text.Numeral
import RenewalDrive.Proofs.Text.Words

/-!
# The grammar of renew windows

A text between blanks denotes a share when it is digits with a percent sign, and a span when it
is digits with a unit. Exactly the texts that denote a window are read, each as the window that
it denotes, and the written form of every window that can be read denotes that window.
-/

namespace RenewalDrive

namespace RenewWindow

open Text

/-!
## The grammar
-/

structure Digits (digits : List Char) : Prop where
  nonempty : digits ≠ []
  digit : forall c, c ∈ digits -> isDigit c = true

/-- The letters of the units and their lengths in seconds; a count without a letter is one of
days. -/
def units : List (List Char × Nat) :=
  [([], 86400), (['d'], 86400), (['h'], 3600), (['m'], 60), (['s'], 1)]

def longestSpan : Nat := 9223372036854775

inductive Denotes : List Char -> RenewWindow -> Prop where
  | share {sign digits before after : List Char} :
      sign = [] ∨ sign = ['+'] ->
      Digits digits ->
      numeralValue digits ≤ 100 ->
      Blanks before ->
      Blanks after ->
      Denotes (before ++ (sign ++ digits ++ after) ++ ['%']) (.percent (numeralValue digits))
  | span {digits blanks letters : List Char} {seconds : Nat} :
      Digits digits ->
      numeralValue digits ≤ 2 ^ 63 - 1 ->
      Blanks blanks ->
      (letters, seconds) ∈ units ->
      numeralValue digits * seconds ≤ longestSpan ->
      Denotes (digits ++ (blanks ++ letters))
        (.fixed (.ofSeconds (numeralValue digits * seconds)))

/-!
## Counts
-/

section

variable {digits text : List Char} {c : Char} {limit n seconds : Nat} {window : RenewWindow}

theorem Digits.numeral (n : Nat) : Digits (numeral n) :=
  ⟨Nat.toDigits_ne_nil, fun _ => isDigit_of_mem_numeral⟩

theorem Digits.bare {sign : List Char} (h : Digits digits) (hsign : sign = [] ∨ sign = ['+']) :
    Bare (sign ++ digits) := by
  have hdigits : forall c, c ∈ digits -> isBlank c = false := fun c hc =>
    isBlank_of_isDigit (h.digit c hc)
  refine bare_of_forall (List.forall_mem_append.mpr ⟨?_, hdigits⟩)
  rcases hsign with rfl | rfl
  · exact List.forall_mem_nil _
  · exact List.forall_mem_singleton.mpr (by decide)

theorem count?_eq_some_iff :
    count? limit digits = some n ↔
      Digits digits ∧ numeralValue digits ≤ limit ∧ n = numeralValue digits := by
  unfold count?
  constructor
  · intro h
    split_ifs at h with hcount
    cases h
    exact ⟨⟨hcount.1, List.all_eq_true.mp hcount.2.1⟩, hcount.2.2, rfl⟩
  · rintro ⟨hdigits, hlimit, rfl⟩
    exact if_pos ⟨hdigits.nonempty, List.all_eq_true.mpr hdigits.digit, hlimit⟩

theorem ofUnits?_eq_some_iff {span : Span} :
    Span.ofUnits? seconds n = some span ↔
      n * seconds ≤ longestSpan ∧ span = .ofSeconds (n * seconds) := by
  have hlimits : (Span.ofSeconds (n * seconds)).InLimits ↔ n * seconds ≤ longestSpan := by
    unfold Span.InLimits Span.ofSeconds Span.perSecond Span.limitMilliseconds Span.perMillisecond
      longestSpan
    dsimp only
    rw [← Nat.cast_mul, ← Nat.cast_mul, Int.natAbs_natCast]
    omega
  unfold Span.ofUnits?
  simp only [Option.ite_none_right_eq_some, Option.some.injEq, hlimits]
  exact and_congr_right fun _ => eq_comm

end

/-!
## Shares
-/

section

variable {text digits rest : List Char} {window : RenewWindow} {seconds : Nat}

theorem share?_eq_some_iff :
    share? text = some window ↔
      exists sign digits, Trims text (sign ++ digits) ∧ (sign = [] ∨ sign = ['+']) ∧
        Digits digits ∧ numeralValue digits ≤ 100 ∧
        window = .percent (numeralValue digits) := by
  have hcount : forall digits,
      (count? shareLimit digits).map RenewWindow.percent = some window ↔
        Digits digits ∧ numeralValue digits ≤ 100 ∧
          window = .percent (numeralValue digits) := by
    intro digits
    simp only [Option.map_eq_some_iff, count?_eq_some_iff, shareLimit]
    constructor
    · rintro ⟨_, ⟨hdigits, hlimit, rfl⟩, rfl⟩
      exact ⟨hdigits, hlimit, rfl⟩
    · rintro ⟨hdigits, hlimit, rfl⟩
      exact ⟨_, ⟨hdigits, hlimit, rfl⟩, rfl⟩
  simp only [trims_iff]
  unfold share?
  split
  case h_1 digits htrim =>
    rw [hcount, htrim]
    constructor
    · intro h
      exact ⟨['+'], digits, rfl, Or.inr rfl, h⟩
    · rintro ⟨sign, digits', heq, rfl | rfl, h⟩
      · rw [List.nil_append] at heq
        rw [heq] at h
        exact absurd (h.1.digit '+' List.mem_cons_self) (by decide)
      · cases heq
        exact h
  case h_2 hplain =>
    rw [hcount]
    constructor
    · intro h
      exact ⟨[], trim text, rfl, Or.inl rfl, h⟩
    · rintro ⟨sign, digits', heq, rfl | rfl, h⟩
      · rw [List.nil_append] at heq
        rwa [heq] at h
      · exact (hplain digits' heq.symm).elim

end

/-!
## Spans
-/

section

variable {text digits blanks letters rest : List Char} {window : RenewWindow} {seconds : Nat}

theorem unitSeconds?_eq_some_iff :
    unitSeconds? letters = some seconds ↔ (letters, seconds) ∈ units := by
  unfold unitSeconds? units
  split <;> simp_all [eq_comm]

theorem letter_of_mem_units (h : (letters, seconds) ∈ units) :
    forall c, c ∈ letters -> isBlank c = false ∧ isDigit c = false ∧ c ≠ '%' := by
  simp only [units, List.mem_cons, Prod.mk.injEq, List.not_mem_nil, or_false] at h
  rcases h with ⟨rfl, _⟩ | ⟨rfl, _⟩ | ⟨rfl, _⟩ | ⟨rfl, _⟩ | ⟨rfl, _⟩
  · exact List.forall_mem_nil _
  all_goals exact List.forall_mem_singleton.mpr (by decide)

theorem bare_of_mem_units (h : (letters, seconds) ∈ units) : Bare letters :=
  bare_of_forall fun c hc => (letter_of_mem_units h c hc).1

theorem isDigit_of_head? (hblanks : Blanks blanks) (hunit : (letters, seconds) ∈ units) (c : Char)
    (hc : (blanks ++ letters).head? = some c) : isDigit c = false := by
  rcases List.mem_append.mp (List.mem_of_mem_head? hc) with hmem | hmem
  · refine Bool.eq_false_iff.mpr fun hdigit => ?_
    have hblank := hblanks c hmem
    rw [isBlank_of_isDigit hdigit] at hblank
    cases hblank
  · exact (letter_of_mem_units hunit c hmem).2.1

theorem percent_not_mem (hdigits : Digits digits) (hblanks : Blanks blanks)
    (hunit : (letters, seconds) ∈ units) : '%' ∉ digits ++ (blanks ++ letters) := by
  simp only [List.mem_append, not_or]
  refine ⟨fun hmem => ?_, fun hmem => ?_, fun hmem => ?_⟩
  · exact absurd (hdigits.digit '%' hmem) (by decide)
  · exact absurd (hblanks '%' hmem) (by decide)
  · exact (letter_of_mem_units hunit '%' hmem).2.2 rfl

theorem takeWhile_digits (hdigits : Digits digits)
    (hrest : forall c, rest.head? = some c -> isDigit c = false) :
    (digits ++ rest).takeWhile isDigit = digits := by
  rw [List.takeWhile_append_of_pos hdigits.digit]
  cases rest with
  | nil => exact List.append_nil digits
  | cons c rest =>
      rw [List.takeWhile_cons_of_neg (by rw [hrest c rfl]; exact Bool.false_ne_true)]
      exact List.append_nil digits

theorem span?_eq_some_iff (hbare : Bare text) :
    span? text = some window ↔
      exists digits blanks letters seconds, text = digits ++ (blanks ++ letters) ∧
        Digits digits ∧ numeralValue digits ≤ countLimit ∧ Blanks blanks ∧
        (letters, seconds) ∈ units ∧ numeralValue digits * seconds ≤ longestSpan ∧
        window = .fixed (.ofSeconds (numeralValue digits * seconds)) := by
  simp only [span?, Option.bind_eq_bind, Option.bind_eq_some_iff, count?_eq_some_iff,
    unitSeconds?_eq_some_iff, ofUnits?_eq_some_iff, Option.pure_def, Option.some.injEq]
  constructor
  · rintro ⟨_, ⟨hdigits, hlimit, rfl⟩, seconds, hunit, _, ⟨hspan, rfl⟩, rfl⟩
    generalize hdigit : text.takeWhile isDigit = digits at *
    generalize hrest : text.drop digits.length = rest at *
    have htext : text = digits ++ rest := by
      rw [← hrest, ← hdigit]
      exact (List.prefix_iff_eq_append.mp (List.takeWhile_prefix isDigit)).symm
    have hlast : forall c, rest.getLast? = some c -> isBlank c = false := fun c hc =>
      hbare.last c (by rw [htext, List.getLast?_append, hc, Option.some_or])
    rcases exists_trim_of_last hlast with ⟨blanks, hblanks, hsplit⟩
    rw [hsplit] at htext
    exact ⟨digits, blanks, trim rest, seconds, htext, hdigits, hlimit, hblanks, hunit, hspan, rfl⟩
  · rintro ⟨digits, blanks, letters, seconds, rfl, hdigits, hlimit, hblanks, hunit, hspan, rfl⟩
    have hrest := isDigit_of_head? hblanks hunit
    rw [takeWhile_digits hdigits hrest, List.drop_left]
    refine ⟨_, ⟨hdigits, hlimit, rfl⟩, seconds, ?_, _, ⟨hspan, rfl⟩, rfl⟩
    have htrim := trim_surrounded hblanks (bare_of_mem_units hunit) (List.forall_mem_nil _)
    rw [List.append_nil] at htrim
    rw [htrim]
    exact hunit

end

/-!
## Windows
-/

section

variable {text : List Char} {window : RenewWindow}

theorem ofTrimmed?_eq_some_iff (hbare : Bare text) :
    ofTrimmed? text = some window ↔ Denotes text window := by
  unfold ofTrimmed?
  constructor
  · intro h
    split_ifs at h with hpercent
    · rcases List.getLast?_eq_some_iff.mp hpercent with ⟨rest, rfl⟩
      rw [List.dropLast_concat] at h
      rcases share?_eq_some_iff.mp h with
        ⟨sign, digits, ⟨_, before, after, hbefore, hafter, rfl⟩, hsign, hdigits, hlimit, rfl⟩
      exact Denotes.share hsign hdigits hlimit hbefore hafter
    · rcases (span?_eq_some_iff hbare).mp h with
        ⟨digits, blanks, letters, seconds, rfl, hdigits, hlimit, hblanks, hunit, hspan, rfl⟩
      exact Denotes.span hdigits hlimit hblanks hunit hspan
  · intro h
    cases h with
    | @share sign digits before after hsign hdigits hlimit hbefore hafter =>
        rw [if_pos List.getLast?_concat, List.dropLast_concat]
        refine share?_eq_some_iff.mpr ⟨sign, digits, ⟨hdigits.bare hsign, ?_⟩, hsign, hdigits,
          hlimit, rfl⟩
        exact ⟨before, after, hbefore, hafter, rfl⟩
    | @span digits blanks letters seconds hdigits hlimit hblanks hunit hspan =>
        have hpercent : (digits ++ (blanks ++ letters)).getLast? ≠ some '%' := fun hlast =>
          percent_not_mem hdigits hblanks hunit (List.mem_of_getLast? hlast)
        rw [if_neg hpercent]
        exact (span?_eq_some_iff hbare).mpr ⟨digits, blanks, letters, seconds, rfl, hdigits, hlimit,
          hblanks, hunit, hspan, rfl⟩

theorem ofText_eq_ok_iff {given : String} (h : Trims given.toList text) :
    ofText given = .ok window ↔ Denotes text window := by
  rw [← ofTrimmed?_eq_some_iff h.1, trims_iff.mp h]
  unfold ofText
  dsimp only
  cases ofTrimmed? (trim given.toList) <;> simp

theorem ofText_eq_error_iff {given : String} {invalid : Invalid} (h : Trims given.toList text) :
    ofText given = .error invalid ↔
      invalid.given = String.ofList text ∧ forall window, ¬ Denotes text window := by
  rcases invalid with ⟨shown⟩
  simp only [← ofText_eq_ok_iff h]
  rw [trims_iff.mp h]
  unfold ofText
  dsimp only
  cases ofTrimmed? (trim given.toList) with
  | none => simp [eq_comm]
  | some window => simp

end

/-!
## Written windows
-/

section

variable {window : RenewWindow}

def Readable (window : RenewWindow) : Prop :=
  exists text, ofText text = .ok window

/-- The windows that can be read: shares up to the whole lifetime, and spans of whole seconds up
to the longest one. -/
theorem readable_cases (h : window.Readable) :
    (exists share, share ≤ 100 ∧ window = .percent share) ∨
      exists seconds : Nat, seconds ≤ longestSpan ∧ window = .fixed (.ofSeconds seconds) := by
  rcases h with ⟨given, hread⟩
  have hdenotes := (ofText_eq_ok_iff (trims_iff.mpr rfl)).mp hread
  generalize trim given.toList = text at hdenotes
  cases hdenotes with
  | @share sign digits before after hsign hdigits hlimit hbefore hafter =>
      exact Or.inl ⟨numeralValue digits, hlimit, rfl⟩
  | @span digits blanks letters seconds hdigits hlimit hblanks hunit hspan =>
      refine Or.inr ⟨numeralValue digits * seconds, hspan, ?_⟩
      rw [Nat.cast_mul]

theorem denotes_count {seconds length : Nat} {letters : List Char}
    (hunit : (letters, length) ∈ units) (hwhole : (seconds : Int) % length = 0)
    (hspan : seconds ≤ longestSpan) :
    Denotes (integerText (seconds / length) ++ String.ofList letters).toList
      (.fixed (.ofSeconds seconds)) := by
  have hcount : seconds / length * length = seconds :=
    Nat.div_mul_cancel (Nat.dvd_of_mod_eq_zero (by exact_mod_cast hwhole))
  have hlimit : seconds / length ≤ 2 ^ 63 - 1 := by
    have hle := Nat.div_le_self seconds length
    unfold longestSpan at hspan
    omega
  have htext : (integerText (seconds / length) ++ String.ofList letters).toList =
      numeral (seconds / length) ++ ([] ++ letters) := by
    rw [← Int.natCast_ediv, integerText, if_neg (Int.not_lt.mpr (Int.natCast_nonneg _)),
      Int.natAbs_natCast, String.toList_append, String.toList_ofList, String.toList_ofList,
      List.nil_append]
  have hdenotes := Denotes.span (Digits.numeral (seconds / length))
    (by rwa [numeralValue_numeral]) (List.forall_mem_nil _) hunit
    (by rwa [numeralValue_numeral, hcount])
  rw [numeralValue_numeral, ← Nat.cast_mul, hcount] at hdenotes
  rw [htext]
  exact hdenotes

theorem denotes_text (h : window.Readable) : Denotes window.text.toList window := by
  rcases readable_cases h with ⟨share, hshare, rfl⟩ | ⟨seconds, hseconds, rfl⟩
  · have hdenotes := Denotes.share (Or.inl rfl) (Digits.numeral share)
      (by rwa [numeralValue_numeral]) (List.forall_mem_nil _) (List.forall_mem_nil _)
    rw [numeralValue_numeral] at hdenotes
    simpa [text, naturalText] using hdenotes
  · have hwhole : (Span.ofSeconds seconds).wholeSeconds = seconds :=
      Int.mul_tdiv_cancel _ (by decide)
    rw [text, hwhole, secondsText]
    split_ifs with hdays hhours hminutes
    · exact denotes_count (by decide) hdays hseconds
    · exact denotes_count (by decide) hhours hseconds
    · exact denotes_count (by decide) hminutes hseconds
    · have hunits : Denotes (integerText (seconds / (1 : Nat)) ++ String.ofList ['s']).toList
          (.fixed (.ofSeconds seconds)) :=
        denotes_count (by decide) (Int.emod_one _) hseconds
      rwa [Nat.cast_one, Int.ediv_one] at hunits

theorem isBlank_of_mem_integerText {n : Int} {c : Char} (h : c ∈ (integerText n).toList) :
    isBlank c = false := by
  unfold integerText at h
  split_ifs at h
  · rw [String.toList_ofList] at h
    rcases List.mem_cons.mp h with rfl | hdigits
    · decide
    · exact isBlank_of_mem_numeral hdigits
  · rw [String.toList_ofList] at h
    exact isBlank_of_mem_numeral h

theorem isBlank_of_mem_secondsText {seconds : Int} {c : Char}
    (h : c ∈ (secondsText seconds).toList) : isBlank c = false := by
  have hcount : forall {n : Int} {letter : String},
      (forall c, c ∈ letter.toList -> isBlank c = false) ->
        c ∈ (integerText n ++ letter).toList -> isBlank c = false := by
    intro n letter hletter hc
    rw [String.toList_append] at hc
    rcases List.mem_append.mp hc with hc | hc
    · exact isBlank_of_mem_integerText hc
    · exact hletter c hc
  unfold secondsText at h
  split_ifs at h
  · exact hcount (List.forall_mem_singleton.mpr (by decide)) h
  · exact hcount (List.forall_mem_singleton.mpr (by decide)) h
  · exact hcount (List.forall_mem_singleton.mpr (by decide)) h
  · exact hcount (List.forall_mem_singleton.mpr (by decide)) h

theorem bare_text (window : RenewWindow) : Bare window.text.toList := by
  refine bare_of_forall fun c hc => ?_
  cases window with
  | percent share =>
      rw [text, naturalText, String.toList_append, String.toList_ofList] at hc
      rcases List.mem_append.mp hc with hc | hc
      · exact isBlank_of_mem_numeral hc
      · cases List.mem_singleton.mp hc
        decide
  | fixed span => exact isBlank_of_mem_secondsText hc

theorem Readable.ofText_text (h : window.Readable) : ofText window.text = .ok window := by
  refine (ofText_eq_ok_iff ⟨bare_text window, [], [], ?_, ?_, ?_⟩).mpr (denotes_text h)
  · exact List.forall_mem_nil _
  · exact List.forall_mem_nil _
  · rw [List.nil_append, List.append_nil]

end

/-- A text is read as a window exactly when what stands between its blanks denotes that window,
and is refused with what stands there otherwise. Every window that is read from some text is
read from its own text. -/
theorem windows_read_and_written (given : String) :
    (forall bare, Trims given.toList bare ->
      (forall window, ofText given = .ok window ↔ Denotes bare window) ∧
      forall invalid, ofText given = .error invalid ↔
        invalid.given = String.ofList bare ∧ forall window, ¬ Denotes bare window) ∧
    forall window, ofText given = .ok window -> ofText window.text = .ok window := by
  refine ⟨fun bare htrims => ⟨?_, ?_⟩, ?_⟩
  · exact fun window => ofText_eq_ok_iff htrims
  · exact fun invalid => ofText_eq_error_iff htrims
  · exact fun window hread => Readable.ofText_text ⟨given, hread⟩

theorem window_read_in_minutes :
    Trims "\u20031440 m\n".toList "1440 m".toList ∧
      ofText "\u20031440 m\n" = .ok (.fixed (.ofSeconds 86400)) ∧
      Denotes "1440 m".toList (.fixed (.ofSeconds 86400)) ∧
      ofText "1d" = .ok (.fixed (.ofSeconds 86400)) := by
  have htrims : Trims "\u20031440 m\n".toList "1440 m".toList := trims_iff.mpr (by decide)
  have hread : ofText "\u20031440 m\n" = .ok (.fixed (.ofSeconds 86400)) := by rfl
  rcases windows_read_and_written "\u20031440 m\n" with ⟨hgrammar, hwritten⟩
  exact ⟨htrims, hread, ((hgrammar _ htrims).1 _).mp hread, hwritten _ hread⟩

end RenewWindow
end RenewalDrive
