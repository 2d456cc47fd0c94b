import Mathlib.Data.List.TakeWhile
import RenewalDrive.Text.Blank

/-!
# The words of a text

A text falls apart into its words in one way only: between two words stand blanks, at least
one, and there may be more of them at both ends. So trimming a text leaves its words alone,
and a text without words is blank.
-/

namespace RenewalDrive
namespace Text

variable {cs word rest : List Char} {words : List (List Char)} {c : Char}

def Blanks (cs : List Char) : Prop :=
  forall c, c ∈ cs -> isBlank c = true

inductive MadeOf : List Char -> List (List Char) -> Prop where
  | blanks {cs : List Char} : Blanks cs -> MadeOf cs []
  | word {blanks word rest : List Char} {words : List (List Char)} :
      Blanks blanks ->
      word ≠ [] ->
      (forall c, c ∈ word -> isBlank c = false) ->
      (forall c, rest.head? = some c -> isBlank c = true) ->
      MadeOf rest words ->
      MadeOf (blanks ++ (word ++ rest)) (word :: words)

/-!
## Words that are found
-/

theorem MadeOf.blank_cons (h : MadeOf cs words) (hc : isBlank c = true) :
    MadeOf (c :: cs) words := by
  cases h with
  | blanks hblanks =>
      exact MadeOf.blanks (List.forall_mem_cons.mpr ⟨hc, hblanks⟩)
  | word hblanks hne hword hrest hwords =>
      exact MadeOf.word (List.forall_mem_cons.mpr ⟨hc, hblanks⟩) hne hword hrest hwords

theorem MadeOf.lengthen {next : Char} (h : MadeOf (next :: cs) words) (hc : isBlank c = false)
    (hnext : isBlank next = false) : MadeOf (c :: next :: cs) (lengthenFirst c words) := by
  generalize htext : next :: cs = text at h
  cases h with
  | blanks hblanks =>
      subst htext
      rw [hblanks next List.mem_cons_self] at hnext
      cases hnext
  | @word blanks word rest words hblanks hne hword hrest hwords =>
      cases blanks with
      | nil =>
          rw [List.nil_append, ← List.cons_append]
          exact MadeOf.word (List.forall_mem_nil _) (List.cons_ne_nil c word)
            (List.forall_mem_cons.mpr ⟨hc, hword⟩) hrest hwords
      | cons first blanks =>
          cases htext
          rw [hblanks next List.mem_cons_self] at hnext
          cases hnext

theorem madeOf_wordsOf (cs : List Char) : MadeOf cs (wordsOf cs) := by
  induction cs with
  | nil => exact MadeOf.blanks (List.forall_mem_nil _)
  | cons c rest ih =>
      have halone : isBlank c = false -> (forall c, rest.head? = some c -> isBlank c = true) ->
          MadeOf (c :: rest) ([c] :: wordsOf rest) := fun hc hrest =>
        MadeOf.word (List.forall_mem_nil _) (List.cons_ne_nil c []) (by simpa using hc) hrest ih
      unfold wordsOf
      split_ifs with hc
      · exact ih.blank_cons hc
      · have hc : isBlank c = false := by simpa using hc
        cases rest with
        | nil => exact halone hc (by simp)
        | cons next rest =>
            dsimp only
            split_ifs with hnext
            · exact halone hc (by simpa using hnext)
            · exact ih.lengthen hc (by simpa using hnext)

/-!
## No other words
-/

theorem wordsOf_append_of_blanks {blanks : List Char} (h : Blanks blanks) (cs : List Char) :
    wordsOf (blanks ++ cs) = wordsOf cs := by
  induction blanks with
  | nil => rfl
  | cons c rest ih =>
      rcases List.forall_mem_cons.mp h with ⟨hc, hrest⟩
      rw [List.cons_append, wordsOf.eq_def]
      exact (if_pos hc).trans (ih hrest)

theorem wordsOf_append_of_word (hne : word ≠ []) (hword : forall c, c ∈ word -> isBlank c = false)
    (hrest : forall c, rest.head? = some c -> isBlank c = true) :
    wordsOf (word ++ rest) = word :: wordsOf rest := by
  induction word with
  | nil => exact absurd rfl hne
  | cons c word ih =>
      rcases List.forall_mem_cons.mp hword with ⟨hc, hword⟩
      cases word with
      | nil =>
          cases rest with
          | nil => simp [wordsOf, hc]
          | cons next rest => simp [wordsOf, hc, hrest next rfl]
      | cons next word =>
          have hnext : isBlank next = false := hword next List.mem_cons_self
          have hlonger := ih (List.cons_ne_nil next word) hword
          rw [List.cons_append] at hlonger ⊢
          rw [List.cons_append, wordsOf.eq_def]
          simp only [hc, hnext, hlonger, Bool.false_eq_true, if_false, lengthenFirst]

theorem madeOf_iff : MadeOf cs words ↔ words = wordsOf cs := by
  constructor
  · intro h
    induction h with
    | @blanks cs hblanks =>
        have hnone := wordsOf_append_of_blanks hblanks []
        rw [List.append_nil] at hnone
        exact hnone.symm
    | word hblanks hne hword hrest _ ih =>
        rw [wordsOf_append_of_blanks hblanks, wordsOf_append_of_word hne hword hrest, ih]
  · rintro rfl
    exact madeOf_wordsOf cs

example : Text.words "\u2003notify \u3000\n--all " = ["notify", "--all"] := by decide

theorem wordsOf_eq_nil_iff : wordsOf cs = [] ↔ Blanks cs := by
  rw [eq_comm, ← madeOf_iff]
  constructor
  · intro h
    cases h with
    | blanks hblanks => exact hblanks
  · exact MadeOf.blanks

/-!
## Trimming
-/

theorem MadeOf.append_blanks {blanks : List Char} (h : MadeOf cs words) (hblanks : Blanks blanks) :
    MadeOf (cs ++ blanks) words := by
  induction h with
  | blanks hbefore =>
      exact MadeOf.blanks (List.forall_mem_append.mpr ⟨hbefore, hblanks⟩)
  | @word before word rest words hbefore hne hword hrest _ ih =>
      rw [List.append_assoc, List.append_assoc]
      refine MadeOf.word hbefore hne hword (fun c hc => ?_) ih
      cases rest with
      | nil => exact hblanks c (List.mem_of_mem_head? hc)
      | cons next rest => exact hrest c hc

theorem exists_trim (cs : List Char) :
    exists before after, Blanks before ∧ Blanks after ∧ cs = before ++ (trim cs ++ after) := by
  refine ⟨cs.takeWhile isBlank, ((trimStart cs).reverse.takeWhile isBlank).reverse,
    fun c hc => List.mem_takeWhile_imp hc,
    fun c hc => List.mem_takeWhile_imp (List.mem_reverse.mp hc), ?_⟩
  unfold trim trimEnd
  rw [← List.reverse_append, List.takeWhile_append_dropWhile, List.reverse_reverse, trimStart,
    List.takeWhile_append_dropWhile]

structure Bare (cs : List Char) : Prop where
  head : forall c, cs.head? = some c -> isBlank c = false
  last : forall c, cs.getLast? = some c -> isBlank c = false

def Trims (cs text : List Char) : Prop :=
  Bare text ∧ exists before after, Blanks before ∧ Blanks after ∧ cs = before ++ (text ++ after)

theorem bare_of_forall (h : forall c, c ∈ cs -> isBlank c = false) : Bare cs :=
  ⟨fun c hc => h c (List.mem_of_mem_head? hc), fun c hc => h c (List.mem_of_getLast? hc)⟩

theorem isBlank_of_head?_dropWhile (h : (cs.dropWhile isBlank).head? = some c) :
    isBlank c = false := by
  have hhead := List.head?_dropWhile_not isBlank cs
  rw [h] at hhead
  exact hhead

theorem dropWhile_eq_self_of_head (h : forall c, cs.head? = some c -> isBlank c = false) :
    cs.dropWhile isBlank = cs := by
  cases cs with
  | nil => rfl
  | cons c rest => exact List.dropWhile_cons_of_neg (by rw [h c rfl]; exact Bool.false_ne_true)

theorem bare_trim (cs : List Char) : Bare (trim cs) := by
  have hlast : forall c, (trim cs).getLast? = some c -> isBlank c = false := by
    intro c hc
    rw [trim, trimEnd, List.getLast?_reverse] at hc
    exact isBlank_of_head?_dropWhile hc
  refine ⟨fun c hc => ?_, hlast⟩
  -- Trimming at the end leaves the first character, unless it leaves none.
  have hstart : trimStart cs = trim cs ++ ((trimStart cs).reverse.takeWhile isBlank).reverse := by
    unfold trim trimEnd
    rw [← List.reverse_append, List.takeWhile_append_dropWhile, List.reverse_reverse]
  have hhead : (trimStart cs).head? = some c := by
    rw [hstart, List.head?_append, hc, Option.some_or]
  exact isBlank_of_head?_dropWhile hhead

theorem trim_surrounded {before after : List Char} (hbefore : Blanks before) (hbare : Bare cs)
    (hafter : Blanks after) : trim (before ++ (cs ++ after)) = cs := by
  have hend : trimEnd (cs ++ after) = cs := by
    have hblanks : forall c, c ∈ after.reverse -> isBlank c = true := fun c hc =>
      hafter c (List.mem_reverse.mp hc)
    rw [trimEnd, List.reverse_append, List.dropWhile_append_of_pos hblanks,
      dropWhile_eq_self_of_head fun c hc => hbare.last c (List.head?_reverse ▸ hc),
      List.reverse_reverse]
  rw [trim, trimStart, List.dropWhile_append_of_pos hbefore]
  cases cs with
  | nil =>
      have hnone : after.dropWhile isBlank = [] := List.dropWhile_eq_nil_iff.mpr hafter
      rw [List.nil_append, hnone]
      rfl
  | cons c rest =>
      rw [dropWhile_eq_self_of_head fun c' hc' => hbare.head c' (by simpa using hc')]
      exact hend

theorem exists_trim_of_last (h : forall c, cs.getLast? = some c -> isBlank c = false) :
    exists blanks, Blanks blanks ∧ cs = blanks ++ trim cs := by
  rcases exists_trim cs with ⟨before, after, hbefore, hafter, hcs⟩
  cases hlast : after.getLast? with
  | none =>
      rw [List.getLast?_eq_none_iff.mp hlast, List.append_nil] at hcs
      exact ⟨before, hbefore, hcs⟩
  | some c =>
      have hblank := hafter c (List.mem_of_getLast? hlast)
      rw [h c (by rw [hcs, List.getLast?_append, List.getLast?_append, hlast]; rfl)] at hblank
      cases hblank

theorem trims_iff {text : List Char} : Trims cs text ↔ text = trim cs := by
  constructor
  · rintro ⟨hbare, before, after, hbefore, hafter, rfl⟩
    exact (trim_surrounded hbefore hbare hafter).symm
  · rintro rfl
    exact ⟨bare_trim cs, exists_trim cs⟩

theorem wordsOf_trim (cs : List Char) : wordsOf (trim cs) = wordsOf cs := by
  rcases exists_trim cs with ⟨before, after, hbefore, hafter, hcs⟩
  have hwords := (madeOf_wordsOf (trim cs)).append_blanks hafter
  have hall := wordsOf_append_of_blanks hbefore (trim cs ++ after)
  rw [← hcs, ← madeOf_iff.mp hwords] at hall
  exact hall.symm

theorem words_trimmed (text : String) : Text.words (trimmed text) = Text.words text := by
  unfold Text.words trimmed
  rw [String.toList_ofList, wordsOf_trim]

theorem trim_eq_nil_iff : trim cs = [] ↔ Blanks cs := by
  constructor
  · intro h
    rcases exists_trim cs with ⟨before, after, hbefore, hafter, hcs⟩
    rw [hcs, h]
    exact List.forall_mem_append.mpr ⟨hbefore, hafter⟩
  · intro h
    have hstart : trimStart cs = [] := List.dropWhile_eq_nil_iff.mpr h
    rw [trim, hstart]
    rfl

theorem trimmed_eq_empty_iff (text : String) : trimmed text = "" ↔ allBlank text = true := by
  rw [trimmed, ← String.ofList_nil, String.ofList_inj, trim_eq_nil_iff, allBlank, List.all_eq_true]
  exact Iff.rfl

end Text
end RenewalDrive
