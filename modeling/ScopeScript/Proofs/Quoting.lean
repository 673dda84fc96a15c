import Mathlib.Data.List.Basic
import ScopeScript.Text.Quoted

/-!
Contract: a quoted text stays on one line and determines the text.

Owns: the three ways in which a character is written between double quotes, that none of
them can be taken for another, and the two facts on `quoteString` that follow.
-/

set_option autoImplicit false

namespace ScopeScript.Text

theorem not_mem_append {char : Char} {first second : String} (notFirst : char ∉ first.toList)
    (notSecond : char ∉ second.toList) : char ∉ (first ++ second).toList := by
  rw [String.toList_append, List.mem_append, not_or]
  exact ⟨notFirst, notSecond⟩

theorem not_mem_intercalate {char : Char} {separator : String} {texts : List String}
    (notSeparator : char ∉ separator.toList) (notTexts : ∀ text ∈ texts, char ∉ text.toList) :
    char ∉ (separator.intercalate texts).toList := by
  induction texts with
  | nil => simp
  | cons text rest inductionHypothesis =>
      rw [List.forall_mem_cons] at notTexts
      cases rest with
      | nil => simpa using notTexts.1
      | cons next rest =>
          rw [String.intercalate_cons_cons]
          exact not_mem_append (not_mem_append notTexts.1 notSeparator)
            (inductionHypothesis notTexts.2)

/-- Two texts that end at the first delimiter are equal up to it and after it. -/
theorem append_delimiter_inj {delimiter : Char} {first second firstRest secondRest : List Char}
    (firstFree : delimiter ∉ first) (secondFree : delimiter ∉ second)
    (same : first ++ delimiter :: firstRest = second ++ delimiter :: secondRest) :
    first = second ∧ firstRest = secondRest := by
  induction first generalizing second with
  | nil =>
      cases second with
      | nil => exact ⟨rfl, List.tail_eq_of_cons_eq same⟩
      | cons char rest =>
          have heads := List.head_eq_of_cons_eq same
          exact absurd (List.mem_cons.mpr (.inl heads)) secondFree
  | cons char rest inductionHypothesis =>
      cases second with
      | nil =>
          have heads := List.head_eq_of_cons_eq same
          exact absurd (List.mem_cons.mpr (.inl heads.symm)) firstFree
      | cons other others =>
          obtain ⟨rfl, tails⟩ := List.cons.inj same
          obtain ⟨rfl, rests⟩ := inductionHypothesis (fun member => firstFree (.tail _ member))
            (fun member => secondFree (.tail _ member)) tails
          exact ⟨rfl, rests⟩

/-! ## Hexadecimal digits -/

theorem digitChar_injective :
    ∀ first < 16, ∀ second < 16, Nat.digitChar first = Nat.digitChar second → first = second := by
  decide

/-- The last digit is split off. -/
theorem toDigits_split (number : Nat) :
    Nat.toDigits 16 number =
      (if number < 16 then [] else Nat.toDigits 16 (number / 16)) ++
        [Nat.digitChar (number % 16)] := by
  rw [Nat.toDigits_eq_if (by decide)]
  by_cases small : number < 16
  · rw [if_pos small, if_pos small, Nat.mod_eq_of_lt small, List.nil_append]
  · rw [if_neg small, if_neg small]

theorem toDigits_injective {first second : Nat}
    (same : Nat.toDigits 16 first = Nat.toDigits 16 second) : first = second := by
  induction first using Nat.strongRecOn generalizing second with
  | ind first inductionHypothesis =>
      rw [toDigits_split first, toDigits_split second] at same
      obtain ⟨fronts, lasts⟩ := List.append_inj' same rfl
      have rests : first % 16 = second % 16 :=
        digitChar_injective _ (Nat.mod_lt _ (by decide)) _ (Nat.mod_lt _ (by decide))
          (List.head_eq_of_cons_eq lasts)
      by_cases firstSmall : first < 16 <;> by_cases secondSmall : second < 16
      · omega
      · rw [if_pos firstSmall, if_neg secondSmall] at fronts
        exact absurd fronts.symm Nat.toDigits_ne_nil
      · rw [if_neg firstSmall, if_pos secondSmall] at fronts
        exact absurd fronts Nat.toDigits_ne_nil
      · rw [if_neg firstSmall, if_neg secondSmall] at fronts
        have quotients := inductionHypothesis (first / 16) (by omega) fronts
        omega

/-- A hexadecimal digit is none of the characters around it. -/
theorem ne_of_mem_toDigits {number : Nat} {char : Char} (member : char ∈ Nat.toDigits 16 number) :
    char ≠ '\x7d' ∧ char ≠ '\n' := by
  have digits : ∀ digit < 16, Nat.digitChar digit ≠ '\x7d' ∧ Nat.digitChar digit ≠ '\n' := by
    decide
  induction number using Nat.strongRecOn with
  | ind number inductionHypothesis =>
      rw [toDigits_split, List.mem_append, List.mem_singleton] at member
      rcases member with front | rfl
      · by_cases small : number < 16
        · rw [if_pos small] at front
          cases front
        · rw [if_neg small] at front
          exact inductionHypothesis (number / 16) (by omega) front
      · exact digits _ (Nat.mod_lt _ (by decide))

/-! ## One character -/

/-- The characters that are written as a backslash and a letter. -/
def escapeLetters : List (Char × Char) :=
  [('\t', 't'), ('\n', 'n'), ('\r', 'r'), ('\x00', '0'), ('\\', '\\'), ('"', '"')]

/-- The ways to write a character: a backslash and a letter, its number, or itself. -/
inductive Written (char : Char) : List Char → Prop where
  | letter {letter : Char} (stands : (char, letter) ∈ escapeLetters) : Written char ['\\', letter]
  | number : Written char (codePointEscape char)
  | plain (letterless : ∀ letter, (char, letter) ∉ escapeLetters) : Written char [char]

theorem written_escapeChar (char : Char) : Written char (escapeChar '"' char) := by
  unfold escapeChar
  split_ifs with tab lineFeed carriage null backslash quote invisible
  · exact .letter (by simp [tab, escapeLetters])
  · exact .letter (by simp [lineFeed, escapeLetters])
  · exact .letter (by simp [carriage, escapeLetters])
  · exact .letter (by simp [null, escapeLetters])
  · exact .letter (by simp [backslash, escapeLetters])
  · exact .letter (by simp [quote, escapeLetters])
  · exact .number
  · refine .plain fun letter stands => ?_
    simp [escapeLetters, tab, lineFeed, carriage, null, backslash, quote] at stands

theorem escapeLetters_injective {first second letter : Char}
    (firstStands : (first, letter) ∈ escapeLetters)
    (secondStands : (second, letter) ∈ escapeLetters) : first = second := by
  have distinct : ∀ left ∈ escapeLetters, ∀ right ∈ escapeLetters, left.2 = right.2 →
      left.1 = right.1 := by decide
  exact distinct _ firstStands _ secondStands rfl

theorem ne_of_letter {char letter : Char} (stands : (char, letter) ∈ escapeLetters) :
    letter ≠ 'u' ∧ letter ≠ '\n' := by
  have letters : ∀ entry ∈ escapeLetters, entry.2 ≠ 'u' ∧ entry.2 ≠ '\n' := by decide
  exact letters _ stands

theorem ne_of_plain {char : Char} (letterless : ∀ letter, (char, letter) ∉ escapeLetters) :
    char ≠ '\\' ∧ char ≠ '\n' := by
  refine ⟨?_, ?_⟩
  · rintro rfl
    exact letterless '\\' (by decide)
  · rintro rfl
    exact letterless 'n' (by decide)

theorem codePointEscape_append_inj {first second : Char} {firstRest secondRest : List Char}
    (same : codePointEscape first ++ firstRest = codePointEscape second ++ secondRest) :
    first = second ∧ firstRest = secondRest := by
  have noBrace : ∀ char : Char, '\x7d' ∉ Nat.toDigits 16 char.toNat :=
    fun char member => (ne_of_mem_toDigits member).1 rfl
  simp only [codePointEscape, List.append_assoc, List.cons_append, List.nil_append,
    List.cons.injEq, true_and] at same
  obtain ⟨digits, rests⟩ := append_delimiter_inj (noBrace first) (noBrace second) same
  exact ⟨Char.toNat_inj.mp (toDigits_injective digits), rests⟩

/-- The way in which a character is written tells where it ends and which character it
is. -/
theorem Written.append_inj {first second : Char} {firstChars secondChars : List Char}
    {firstRest secondRest : List Char} (firstWritten : Written first firstChars)
    (secondWritten : Written second secondChars)
    (same : firstChars ++ firstRest = secondChars ++ secondRest) :
    first = second ∧ firstRest = secondRest := by
  cases firstWritten with
  | letter firstStands =>
      cases secondWritten with
      | letter secondStands =>
          simp only [List.cons_append, List.nil_append, List.cons.injEq, true_and] at same
          obtain ⟨rfl, rests⟩ := same
          exact ⟨escapeLetters_injective firstStands secondStands, rests⟩
      | number =>
          injection same with _ same
          injection same with letter _
          exact absurd letter (ne_of_letter firstStands).1
      | plain letterless =>
          injection same with backslash _
          exact absurd backslash.symm (ne_of_plain letterless).1
  | number =>
      cases secondWritten with
      | letter secondStands =>
          injection same with _ same
          injection same with letter _
          exact absurd letter.symm (ne_of_letter secondStands).1
      | number => exact codePointEscape_append_inj same
      | plain letterless =>
          injection same with backslash _
          exact absurd backslash.symm (ne_of_plain letterless).1
  | plain firstLetterless =>
      cases secondWritten with
      | letter secondStands =>
          injection same with backslash _
          exact absurd backslash (ne_of_plain firstLetterless).1
      | number =>
          injection same with backslash _
          exact absurd backslash (ne_of_plain firstLetterless).1
      | plain letterless =>
          injection same with chars rests
          exact ⟨chars, rests⟩

theorem Written.ne_nil {char : Char} {chars : List Char} (written : Written char chars) :
    chars ≠ [] := by
  cases written with
  | letter stands => simp
  | number => simp [codePointEscape]
  | plain letterless => simp

theorem Written.no_break {char : Char} {chars : List Char} (written : Written char chars) :
    '\n' ∉ chars := by
  intro member
  cases written with
  | letter stands =>
      simp only [List.mem_cons, List.not_mem_nil, or_false] at member
      rcases member with backslash | letter
      · exact absurd backslash (by decide)
      · exact (ne_of_letter stands).2 letter.symm
  | number =>
      simp only [codePointEscape, List.mem_append, List.mem_cons, List.not_mem_nil,
        or_false] at member
      rcases member with (front | digit) | brace
      · revert front
        decide
      · exact (ne_of_mem_toDigits digit).2 rfl
      · exact absurd brace (by decide)
  | plain letterless =>
      rw [List.mem_singleton] at member
      exact (ne_of_plain letterless).2 member.symm

/-! ## Texts -/

theorem escaped_injective {first second : List Char}
    (same : first.flatMap (escapeChar '"') = second.flatMap (escapeChar '"')) :
    first = second := by
  induction first generalizing second with
  | nil =>
      cases second with
      | nil => rfl
      | cons char rest =>
          rw [List.flatMap_nil, List.flatMap_cons] at same
          exact absurd (List.append_eq_nil_iff.mp same.symm).1 (written_escapeChar char).ne_nil
  | cons char rest inductionHypothesis =>
      cases second with
      | nil =>
          rw [List.flatMap_nil, List.flatMap_cons] at same
          exact absurd (List.append_eq_nil_iff.mp same).1 (written_escapeChar char).ne_nil
      | cons other others =>
          rw [List.flatMap_cons, List.flatMap_cons] at same
          obtain ⟨rfl, rests⟩ :=
            (written_escapeChar char).append_inj (written_escapeChar other) same
          rw [inductionHypothesis rests]

/-- Different texts have different quoted forms. -/
theorem quoteString_injective {first second : String}
    (same : quoteString first = quoteString second) : first = second := by
  have chars := String.ofList_injective same
  simp only [quoted, List.cons_append, List.cons.injEq, true_and,
    List.append_cancel_right_eq] at chars
  exact String.toList_injective (escaped_injective chars)

/-- A quoted form stays on one line. -/
theorem quoteString_no_break (text : String) : '\n' ∉ (quoteString text).toList := by
  rw [quoteString, String.toList_ofList]
  simp only [quoted, List.cons_append, List.mem_cons, List.mem_append, List.mem_flatMap,
    List.not_mem_nil, or_false, not_or, not_exists, not_and]
  refine ⟨by decide, fun char _ => (written_escapeChar char).no_break, by decide⟩

end ScopeScript.Text
