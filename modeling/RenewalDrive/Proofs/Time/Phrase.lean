import RenewalDrive.Proofs.Text.Numeral
import RenewalDrive.Proofs.Text.Words
import RenewalDrive.Time.Span

/-!
# Phrases read back

The text of a span is read as a sign and some counts with their units. The counts are those of
the span cut to whole seconds, or to whole milliseconds where it is shorter than a second. The
sign is written for whole seconds only, so it is lost where there is none of them.
-/

namespace RenewalDrive

namespace Span

open Text

/-!
## A reader of phrases
-/

inductive Measure where
  | time (unit : Unit)
  | millisecond
deriving DecidableEq

def Measure.length : Measure -> Nat
  | .time unit => unit.seconds * perSecond
  | .millisecond => perMillisecond

@[simp] theorem Measure.length_time (unit : Unit) :
    (Measure.time unit).length = unit.seconds * perSecond := rfl

@[simp] theorem Measure.length_millisecond : Measure.millisecond.length = perMillisecond := rfl

theorem Measure.length_time_lt_iff {unit longer : Unit} :
    (Measure.time unit).length < (Measure.time longer).length ↔ unit.seconds < longer.seconds :=
  Nat.mul_lt_mul_right (by decide)

theorem Measure.millisecond_shortest (measure : Measure) : perMillisecond ≤ measure.length := by
  rcases measure with (_ | _ | _ | _) | _ <;> decide

/-- A count with the word behind it: what the word names, and whether it is a plural. -/
structure Part where
  count : Nat
  measure : Measure
  plural : Bool
deriving DecidableEq

structure Reading where
  negative : Bool
  parts : List Part
deriving DecidableEq

/-- The words for measures; milliseconds have but one. -/
def measures : List (List Char × Measure × Bool) :=
  [("day".toList, .time .day, false), ("days".toList, .time .day, true),
    ("hour".toList, .time .hour, false), ("hours".toList, .time .hour, true),
    ("minute".toList, .time .minute, false), ("minutes".toList, .time .minute, true),
    ("second".toList, .time .second, false), ("seconds".toList, .time .second, true),
    ("ms".toList, .millisecond, false)]

def Part.ofWords? (count word : List Char) : Option Part :=
  if count ≠ [] ∧ count.all isDigit then
    (measures.lookup word).map fun found => ⟨numeralValue count, found.1, found.2⟩
  else none

def partsOf? : List (List Char) -> Option (List Part)
  | [] => some []
  | [_] => none
  | count :: word :: rest =>
      match Part.ofWords? count word, partsOf? rest with
      | some part, some parts => some (part :: parts)
      | _, _ => none

namespace Reading

/-- Reads a phrase: a minus sign, if there is one, and counts with their words. -/
def ofText? (text : String) : Option Reading :=
  match text.toList with
  | '-' :: rest => (partsOf? (wordsOf rest)).map fun parts => ⟨true, parts⟩
  | cs => (partsOf? (wordsOf cs)).map fun parts => ⟨false, parts⟩

def amount : List Part -> Nat
  | [] => 0
  | part :: rest => part.count * part.measure.length + amount rest

def span (reading : Reading) : Span :=
  if reading.negative then ⟨-(amount reading.parts : Int)⟩ else ⟨amount reading.parts⟩

/-- A reading of parts from long to short, none of which reaches the length of a longer measure,
each in the plural where it should be. No part is zero, unless it is all that there is. -/
structure Proper (reading : Reading) : Prop where
  nonempty : reading.parts ≠ []
  descending : reading.parts.Pairwise fun part next => next.measure.length < part.measure.length
  bounded : forall part, part ∈ reading.parts -> forall measure : Measure,
    part.measure.length < measure.length -> part.count * part.measure.length < measure.length
  not_zero : forall part, part ∈ reading.parts -> part.count = 0 ->
    reading = ⟨false, [⟨0, .millisecond, false⟩]⟩
  singular : forall part, part ∈ reading.parts ->
    (part.plural = false ↔ part.measure = .millisecond ∨ part.count = 1)

end Reading

/-- A span cut toward zero to whole seconds, or to whole milliseconds where it is shorter than a
second. -/
def shortened (span : Span) : Span :=
  if perSecond ≤ span.nanoseconds.natAbs then ⟨span.nanoseconds - span.nanoseconds.tmod perSecond⟩
  else ⟨span.nanoseconds - span.nanoseconds.tmod perMillisecond⟩

/-- A span below zero by a millisecond or more, but by less than a second. -/
def SlightlyNegative (span : Span) : Prop :=
  -(perSecond : Int) < span.nanoseconds ∧ span.nanoseconds ≤ -(perMillisecond : Int)

/-!
## The words of a phrase
-/

section

variable {unit : Unit} {count : Nat} {cs rest : List Char}

def Unit.word (unit : Unit) (count : Nat) : List Char :=
  unit.name.toList ++ if count = 1 then [] else ['s']

theorem Unit.counted_eq (unit : Unit) (count : Nat) :
    unit.counted count = numeral count ++ ([' '] ++ unit.word count) := by
  simp [counted, word]

theorem Unit.word_ne_nil : unit.word count ≠ [] := by
  cases unit <;> simp [word, name]

theorem Unit.isBlank_of_mem_word {c : Char} (h : c ∈ unit.word count) : isBlank c = false := by
  have hword : ((unit.word count).all fun c => !isBlank c) = true := by
    unfold word
    split_ifs <;> cases unit <;> decide
  simpa using List.all_eq_true.mp hword c h

theorem blanks_space : Blanks [' '] :=
  List.forall_mem_singleton.mpr (by decide)

theorem isBlank_of_head?_space {c : Char} (h : ([' '] ++ cs).head? = some c) : isBlank c = true :=
  blanks_space c (List.mem_of_mem_head? (l := [' ']) h)

theorem wordsOf_counted (hrest : forall c, rest.head? = some c -> isBlank c = true) :
    wordsOf (unit.counted count ++ rest) = numeral count :: unit.word count :: wordsOf rest := by
  rw [Unit.counted_eq, List.append_assoc, List.append_assoc,
    wordsOf_append_of_word numeral_ne_nil (fun _ => isBlank_of_mem_numeral)
      (fun _ => isBlank_of_head?_space),
    wordsOf_append_of_blanks blanks_space,
    wordsOf_append_of_word Unit.word_ne_nil (fun _ => Unit.isBlank_of_mem_word) hrest]

def joined (counts : List (Unit × Nat)) : List Char :=
  ((counts.map fun part => part.1.counted part.2).intersperse [' ']).flatten

theorem joined_cons_cons (first second : Unit × Nat) (counts : List (Unit × Nat)) :
    joined (first :: second :: counts) =
      first.1.counted first.2 ++ ([' '] ++ joined (second :: counts)) := rfl

theorem wordsOf_joined (counts : List (Unit × Nat)) :
    wordsOf (joined counts) =
      counts.flatMap fun part => [numeral part.2, part.1.word part.2] := by
  induction counts with
  | nil => rfl
  | cons first counts ih =>
      cases counts with
      | nil =>
          have hword : wordsOf (first.1.counted first.2 ++ []) =
              numeral first.2 :: first.1.word first.2 :: wordsOf [] :=
            wordsOf_counted fun _ hc => nomatch hc
          rw [List.append_nil, wordsOf] at hword
          simpa [joined] using hword
      | cons second counts =>
          rw [joined_cons_cons, wordsOf_counted fun _ => isBlank_of_head?_space,
            wordsOf_append_of_blanks blanks_space, ih]
          rfl

theorem head?_joined {c : Char} {counts : List (Unit × Nat)}
    (h : (joined counts).head? = some c) : isDigit c = true := by
  have hcounted : forall (unit : Unit) (count : Nat) (rest : List Char),
      (unit.counted count ++ rest).head? = some c -> isDigit c = true := by
    intro unit count rest hhead
    rw [Unit.counted_eq, List.append_assoc, List.head?_append_of_ne_nil _ numeral_ne_nil]
      at hhead
    exact isDigit_of_mem_numeral (List.mem_of_mem_head? hhead)
  match counts with
  | [] => cases h
  | [first] => exact hcounted first.1 first.2 [] (by simpa [joined] using h)
  | first :: second :: counts => exact hcounted first.1 first.2 _ h

end

/-!
## What is read
-/

def Part.ofCount (counted : Unit × Nat) : Part :=
  ⟨counted.2, .time counted.1, counted.2 ≠ 1⟩

theorem Part.ofWords?_counted (unit : Unit) (count : Nat) :
    Part.ofWords? (numeral count) (unit.word count) = some (.ofCount (unit, count)) := by
  have hdigits : (numeral count).all isDigit = true :=
    List.all_eq_true.mpr fun _ => isDigit_of_mem_numeral
  have hword : measures.lookup (unit.word count) = some (.time unit, decide (count ≠ 1)) := by
    unfold Unit.word
    split_ifs with hone
    · subst hone
      cases unit <;> rfl
    · rw [decide_eq_true hone]
      cases unit <;> rfl
  rw [ofWords?, if_pos ⟨numeral_ne_nil, hdigits⟩, hword, numeralValue_numeral]
  rfl

theorem partsOf?_joined (counts : List (Unit × Nat)) :
    partsOf? (wordsOf (joined counts)) = some (counts.map Part.ofCount) := by
  rw [wordsOf_joined]
  induction counts with
  | nil => rfl
  | cons first counts ih =>
      rw [List.flatMap_cons, List.cons_append, List.cons_append, List.nil_append, partsOf?,
        Part.ofWords?_counted, ih]
      rfl

namespace Reading

variable {cs : List Char} {parts : List Part} {seconds count : Nat}

theorem ofText?_negative :
    ofText? (String.ofList ('-' :: cs)) =
      (partsOf? (wordsOf cs)).map fun parts => ⟨true, parts⟩ := by
  rw [ofText?, String.toList_ofList]
  rfl

theorem ofText?_of_digit (h : forall c, cs.head? = some c -> isDigit c = true) :
    ofText? (String.ofList cs) = (partsOf? (wordsOf cs)).map fun parts => ⟨false, parts⟩ := by
  rw [ofText?, String.toList_ofList]
  split
  · cases h '-' rfl
  · rfl

/-!
## The counts of a number of seconds
-/

theorem amount_filter (counts : List (Unit × Nat)) :
    amount ((counts.filter fun part => part.2 ≠ 0).map .ofCount) =
      amount (counts.map .ofCount) := by
  induction counts with
  | nil => rfl
  | cons first counts ih =>
      by_cases hzero : first.2 = 0
      · rw [List.filter_cons_of_neg (by simpa using hzero), ih]
        simp [amount, Part.ofCount, hzero]
      · rw [List.filter_cons_of_pos (by simpa using hzero), List.map_cons, List.map_cons, amount,
          amount, ih]

def partsOf (seconds : Nat) : List Part :=
  ((unitCounts seconds).filter fun part => part.2 ≠ 0).map .ofCount

theorem amount_partsOf (seconds : Nat) : amount (partsOf seconds) = seconds * perSecond := by
  rw [partsOf, amount_filter]
  simp only [unitCounts, List.map_cons, List.map_nil, amount, Part.ofCount, Measure.length,
    Unit.seconds, perSecond]
  omega

theorem mem_partsOf {part : Part} (h : part ∈ partsOf seconds) :
    exists counted, counted ∈ unitCounts seconds ∧ counted.2 ≠ 0 ∧ part = .ofCount counted := by
  rcases List.mem_map.mp h with ⟨counted, hcounted, rfl⟩
  rcases List.mem_filter.mp hcounted with ⟨hmem, hne⟩
  exact ⟨counted, hmem, by simpa using hne, rfl⟩

theorem partsOf_ne_nil (h : seconds ≠ 0) : partsOf seconds ≠ [] := by
  intro hnil
  have hamount := amount_partsOf seconds
  rw [hnil, amount] at hamount
  unfold perSecond at hamount
  omega

theorem descending_unitCounts (seconds : Nat) :
    (unitCounts seconds).Pairwise fun counted next =>
      (Part.ofCount next).measure.length < (Part.ofCount counted).measure.length := by
  simp only [Part.ofCount, Measure.length_time_lt_iff]
  simp [unitCounts, Unit.seconds]

theorem bounded_unitCounts {counted : Unit × Nat} {longer : Unit}
    (h : counted ∈ unitCounts seconds) (hlonger : counted.1.seconds < longer.seconds) :
    counted.2 * counted.1.seconds < longer.seconds := by
  simp only [unitCounts, List.mem_cons, List.not_mem_nil, or_false] at h
  rcases h with rfl | rfl | rfl | rfl <;> cases longer
  all_goals
    simp only [Unit.seconds] at hlonger ⊢
    omega

theorem proper_partsOf (h : seconds ≠ 0) (negative : Bool) :
    Proper ⟨negative, partsOf seconds⟩ where
  nonempty := partsOf_ne_nil h
  descending := List.pairwise_map.mpr ((descending_unitCounts seconds).filter _)
  bounded := by
    intro part hpart measure hlonger
    rcases mem_partsOf hpart with ⟨counted, hmem, -, rfl⟩
    cases measure with
    | time longer =>
        have hunits := bounded_unitCounts hmem (Measure.length_time_lt_iff.mp hlonger)
        simp only [Part.ofCount, Measure.length_time, ← Nat.mul_assoc]
        exact Nat.mul_lt_mul_of_pos_right hunits (by decide)
    | millisecond =>
        exact absurd hlonger (Nat.not_lt_of_le (Measure.millisecond_shortest _))
  not_zero := by
    intro part hpart hzero
    rcases mem_partsOf hpart with ⟨counted, -, hne, rfl⟩
    exact absurd hzero hne
  singular := by
    intro part hpart
    rcases mem_partsOf hpart with ⟨counted, -, -, rfl⟩
    simp [Part.ofCount]

theorem proper_milliseconds (h : count < 1000) :
    Proper ⟨false, [⟨count, .millisecond, false⟩]⟩ where
  nonempty := List.cons_ne_nil _ _
  descending := List.pairwise_singleton _ _
  bounded := by
    intro part hpart measure hlonger
    cases List.mem_singleton.mp hpart
    have hsecond : perSecond ≤ measure.length := by
      rcases measure with (_ | _ | _ | _) | _
      case millisecond => exact absurd hlonger (Nat.lt_irrefl _)
      all_goals decide
    simp only [Measure.length_millisecond]
    unfold perSecond at hsecond
    unfold perMillisecond
    omega
  not_zero := by
    intro part hpart hzero
    cases List.mem_singleton.mp hpart
    cases hzero
    rfl
  singular := by
    intro part hpart
    cases List.mem_singleton.mp hpart
    simp

end Reading

/-!
## Reading a phrase back
-/

section

variable {span : Span}

theorem tdiv_cases (n : Int) (unit : Nat) :
    0 ≤ n ∧ n.tdiv unit = n / unit ∨ n < 0 ∧ n.tdiv unit = -(-n / unit) := by
  by_cases hn : 0 ≤ n
  · exact .inl ⟨hn, Int.tdiv_eq_ediv_of_nonneg hn⟩
  · refine .inr ⟨Int.lt_of_not_ge hn, ?_⟩
    rw [← Int.tdiv_eq_ediv_of_nonneg (by omega : 0 ≤ -n), Int.neg_tdiv, Int.neg_neg]

theorem wholeSeconds_eq_zero_iff :
    span.wholeSeconds = 0 ↔ ¬ perSecond ≤ span.nanoseconds.natAbs := by
  have hcut := tdiv_cases span.nanoseconds perSecond
  unfold wholeSeconds perSecond at *
  omega

/-- A phrase of whole seconds is read with their sign and their counts. -/
theorem ofText?_phrase_of_seconds (h : span.wholeSeconds ≠ 0) :
    Reading.ofText? span.phrase =
      some ⟨span.wholeSeconds < 0, Reading.partsOf span.wholeSeconds.natAbs⟩ := by
  have hparts := partsOf?_joined
    ((unitCounts span.wholeSeconds.natAbs).filter fun part => part.2 ≠ 0)
  unfold phrase
  dsimp only
  rw [if_neg h]
  split_ifs with hneg
  · refine Reading.ofText?_negative.trans ?_
    rw [decide_eq_true hneg]
    exact congrArg (Option.map _) hparts
  · refine (Reading.ofText?_of_digit fun _ => head?_joined).trans ?_
    rw [decide_eq_false hneg]
    exact congrArg (Option.map _) hparts

/-- A phrase of milliseconds is read without a sign. -/
theorem ofText?_phrase_of_milliseconds (h : span.wholeSeconds = 0) :
    Reading.ofText? span.phrase =
      some ⟨false, [⟨span.wholeMilliseconds.natAbs, .millisecond, false⟩]⟩ := by
  have hhead : forall c,
      (numeral span.wholeMilliseconds.natAbs ++ ([' '] ++ ['m', 's'])).head? = some c ->
        isDigit c = true := by
    intro c hc
    rw [List.head?_append_of_ne_nil _ numeral_ne_nil] at hc
    exact isDigit_of_mem_numeral (List.mem_of_mem_head? hc)
  have hwords : wordsOf (numeral span.wholeMilliseconds.natAbs ++ ([' '] ++ ['m', 's'])) =
      [numeral span.wholeMilliseconds.natAbs, ['m', 's']] := by
    rw [wordsOf_append_of_word numeral_ne_nil (fun _ => isBlank_of_mem_numeral)
      (fun _ => isBlank_of_head?_space)]
    rfl
  have hdigits : (numeral span.wholeMilliseconds.natAbs).all isDigit = true :=
    List.all_eq_true.mpr fun _ => isDigit_of_mem_numeral
  unfold phrase
  dsimp only
  rw [if_pos h]
  refine (Reading.ofText?_of_digit hhead).trans ?_
  rw [hwords, partsOf?, Part.ofWords?, if_pos ⟨numeral_ne_nil, hdigits⟩, numeralValue_numeral]
  rfl

theorem Reading.span_unsigned {count : Nat} :
    Reading.span ⟨false, [⟨count, .millisecond, false⟩]⟩ = ⟨count * perMillisecond⟩ := by
  simp [Reading.span, Reading.amount]

theorem span_of_seconds (seconds : Int) :
    Reading.span ⟨seconds < 0, Reading.partsOf seconds.natAbs⟩ = .ofSeconds seconds := by
  unfold Reading.span ofSeconds
  rw [Reading.amount_partsOf]
  split_ifs with hneg
  · have hneg : seconds < 0 := of_decide_eq_true hneg
    rw [Nat.cast_mul, ← Int.neg_mul]
    congr 2
    omega
  · have hneg : ¬ seconds < 0 := by simpa using hneg
    rw [Nat.cast_mul]
    congr 2
    omega

theorem shortened_of_seconds (h : span.wholeSeconds ≠ 0) :
    span.shortened = .ofSeconds span.wholeSeconds := by
  rw [shortened, if_pos (by_contra fun hlt => h (wholeSeconds_eq_zero_iff.mpr hlt)), ofSeconds,
    wholeSeconds]
  congr 1
  have hcut := Int.tdiv_mul_add_tmod span.nanoseconds perSecond
  omega

theorem shortened_of_milliseconds (h : span.wholeSeconds = 0) :
    span.shortened = ⟨span.wholeMilliseconds * perMillisecond⟩ := by
  rw [shortened, if_neg (wholeSeconds_eq_zero_iff.mp h), wholeMilliseconds]
  congr 1
  have hcut := Int.tdiv_mul_add_tmod span.nanoseconds perMillisecond
  omega

theorem slightlyNegative_iff (h : span.wholeSeconds = 0) :
    span.SlightlyNegative ↔ span.wholeMilliseconds < 0 := by
  have hsmall := wholeSeconds_eq_zero_iff.mp h
  have hcut := tdiv_cases span.nanoseconds perMillisecond
  unfold SlightlyNegative wholeMilliseconds
  unfold perSecond perMillisecond at *
  omega

theorem not_slightlyNegative (h : span.wholeSeconds ≠ 0) : ¬ span.SlightlyNegative := by
  intro hslightly
  refine h (wholeSeconds_eq_zero_iff.mpr ?_)
  rcases hslightly with ⟨hlow, hhigh⟩
  unfold perSecond at *
  unfold perMillisecond at *
  omega

end

/-- The text of a span is read back as a proper reading: up to its sign, of the span cut to whole
seconds or to whole milliseconds. The sign is right unless the span is slightly negative. -/
theorem phrase_read_back_iff (span : Span) :
    exists reading, Reading.ofText? span.phrase = some reading ∧ reading.Proper ∧
      (reading.span = span.shortened ∨ reading.span = span.shortened.negate) ∧
      (reading.span = span.shortened ↔ ¬ span.SlightlyNegative) := by
  by_cases hseconds : span.wholeSeconds = 0
  · have hcount : span.wholeMilliseconds.natAbs < 1000 := by
      have hsmall := wholeSeconds_eq_zero_iff.mp hseconds
      have hcut := tdiv_cases span.nanoseconds perMillisecond
      unfold wholeMilliseconds perSecond perMillisecond at *
      omega
    refine ⟨_, ofText?_phrase_of_milliseconds hseconds, Reading.proper_milliseconds hcount, ?_⟩
    rw [shortened_of_milliseconds hseconds, slightlyNegative_iff hseconds, Reading.span_unsigned,
      negate, ← Int.neg_mul]
    constructor
    · rcases Int.natAbs_eq span.wholeMilliseconds with habs | habs
      · exact .inl (by rw [← habs])
      · exact .inr (by rw [← Int.neg_eq_comm.mp habs.symm])
    · simp [perMillisecond]
  · have hnatAbs : span.wholeSeconds.natAbs ≠ 0 := Int.natAbs_ne_zero.mpr hseconds
    have hspan : Reading.span ⟨span.wholeSeconds < 0, Reading.partsOf span.wholeSeconds.natAbs⟩ =
        span.shortened := (span_of_seconds _).trans (shortened_of_seconds hseconds).symm
    exact ⟨_, ofText?_phrase_of_seconds hseconds, Reading.proper_partsOf hnatAbs _, .inl hspan,
      iff_of_true hspan (not_slightlyNegative hseconds)⟩

example : Reading.ofText? (ofSeconds (-93780)).phrase =
    some ⟨true, [⟨1, .time .day, false⟩, ⟨2, .time .hour, true⟩, ⟨3, .time .minute, true⟩]⟩ := by
  decide

/-- A quarter of a second below zero has the text of a quarter of a second. -/
theorem sign_lost_below_second :
    (Span.mk (-250000000)).phrase = "250 ms" ∧
      ¬ exists reading, Reading.ofText? (Span.mk (-250000000)).phrase = some reading ∧
        reading.span = (Span.mk (-250000000)).shortened := by
  have hphrase : (Span.mk (-250000000)).phrase = "250 ms" := by decide
  have hread : Reading.ofText? "250 ms" = some ⟨false, [⟨250, .millisecond, false⟩]⟩ := by decide
  refine ⟨hphrase, ?_⟩
  rintro ⟨reading, hreading, hspan⟩
  rw [hphrase, hread] at hreading
  cases hreading
  exact absurd hspan (by decide)

end Span

end RenewalDrive
