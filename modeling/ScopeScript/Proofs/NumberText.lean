import Mathlib
import ScopeScript.Eval.Value
import ScopeScript.Proofs.Lexing
import ScopeScript.Proofs.Rounding
import ScopeScript.Proofs.TableParser

/-!
Contract: the text of a number and the number that a text is read as.

Owns: the bits of doubles without a sign, the texts that write a decimal without an
exponent, how the text of a number token is read, that every number is shown on one line,
and the theorem that a printed number is a literal of the same number.

What the lexer and the reader have in common is the shape of the text: digits with at most
one point between them.  Both halves of the theorem start from this shape.

The lemmas about packed doubles are in no smaller part of the library than the whole.
-/

set_option autoImplicit false

namespace ScopeScript.Number

/-! ## Bits -/

section Bits

open Float.Model (Format)
open Float.Model.UnpackedFloat

theorem infinityMagnitude_eq : infinityMagnitude = 2047 * 2 ^ 52 := by decide

theorem signBit_eq : signBit = 2 ^ 63 := rfl

theorem unpackExponent_eq_ones (bits : BitVec Format.binary64.numBits) :
    unpackExponent bits = -1#_ ↔ bits.toNat / 2 ^ 52 % 2 ^ 11 = 2047 := by
  rw [← BitVec.toNat_inj, unpackExponent_def, BitVec.extractLsb'_toNat,
    Nat.shiftRight_eq_div_pow]
  rfl

theorem toNat_unpackMantissa (bits : BitVec Format.binary64.numBits) :
    (unpackMantissa bits).toNat = bits.toNat % 2 ^ 52 := by
  rw [unpackMantissa_def, BitVec.extractLsb'_toNat, Nat.shiftRight_zero]

theorem isFinite_iff_exponent (number : Float) :
    number.isFinite = true ↔
      @unpackExponent Format.binary64 number.toBits.toBitVec ≠ -1#_ := by
  change (unpack Format.binary64 number.toBits.toBitVec).isFinite = true ↔ _
  fun_cases unpack Format.binary64 number.toBits.toBitVec with
  | case1 _ _ _ _ special => exact ⟨nofun, fun ordinary => absurd special ordinary⟩
  | case2 _ _ special => exact ⟨nofun, fun ordinary => absurd special ordinary⟩
  | case3 _ _ _ _ ordinary => exact ⟨fun _ => ordinary, fun _ => rfl⟩
  | case4 _ _ _ _ _ ordinary => exact ⟨fun _ => ordinary, fun _ => rfl⟩
  | case5 _ _ _ _ _ ordinary => exact ⟨fun _ => ordinary, fun _ => rfl⟩

/-- The finite doubles are those below infinity. -/
theorem isFinite_iff (number : Float) :
    number.isFinite = true ↔ magnitude number < infinityMagnitude := by
  rw [isFinite_iff_exponent, ne_eq, unpackExponent_eq_ones, UInt64.toNat_toBitVec, magnitude,
    infinityMagnitude_eq, signBit_eq]
  omega

/-- A double without a sign is known from its magnitude. -/
theorem ofMagnitude_magnitude {number : Float} (positive : isNegative number = false) :
    ofMagnitude false (magnitude number) = number := by
  have below : number.toBits.toNat < signBit := by
    simpa [isNegative] using positive
  rw [ofMagnitude, magnitude, Nat.mod_eq_of_lt below]
  simp

/-- Only the bits of a double that is not a number can be changed by reading them as a
double. -/
theorem toBits_ofBits {bits : UInt64} (number : bits.toNat ≤ infinityMagnitude) :
    (Float.ofBits bits).toBits = bits := by
  have isNumber : @isNaNBits Format.binary64 bits.toBitVec = false := by
    rw [isNaNBits, decide_eq_false_iff_not, unpackExponent_eq_ones, ne_eq, ← BitVec.toNat_inj,
      toNat_unpackMantissa, UInt64.toNat_toBitVec, BitVec.toNat_zero]
    rw [infinityMagnitude_eq] at number
    omega
  apply UInt64.toBitVec_inj.mp
  change (unpack Format.binary64 bits.toBitVec).pack Format.binary64 = _
  rw [pack_unpack, isNumber]
  rfl

/-- The double of a magnitude up to infinity has this magnitude and no sign. -/
theorem toNat_toBits_ofMagnitude {value : Nat} (number : value ≤ infinityMagnitude) :
    (ofMagnitude false value).toBits.toNat = value := by
  have below : value < 2 ^ 64 := by
    rw [infinityMagnitude_eq] at number
    omega
  have bits : (UInt64.ofNat value).toNat = value := by
    simpa using Nat.mod_eq_of_lt below
  change (Float.ofBits (UInt64.ofNat value)).toBits.toNat = value
  rw [toBits_ofBits (by rw [bits]; exact number), bits]

end Bits

/-! ## Decimals as text -/

theorem digitsValue_toDigits (number : Nat) : digitsValue (Nat.toDigits 10 number) = number :=
  Nat.ofDigitChars_ten_toDigits

theorem digitsValue_append_zeros (chars : List Char) (count : Nat) :
    digitsValue (chars ++ List.replicate count '0') = digitsValue chars * 10 ^ count := by
  have appended : Nat.ofDigitChars 10 (chars ++ List.replicate count '0') 0 =
      10 ^ count * Nat.ofDigitChars 10 chars 0 := by
    rw [Nat.ofDigitChars_append, Nat.ofDigitChars_replicate_zero]
  rw [Nat.mul_comm]
  exact appended

theorem digitsValue_zeros_append (count : Nat) (chars : List Char) :
    digitsValue (List.replicate count '0' ++ chars) = digitsValue chars := by
  have appended : Nat.ofDigitChars 10 (List.replicate count '0' ++ chars) 0 =
      Nat.ofDigitChars 10 chars 0 := by
    rw [Nat.ofDigitChars_append, Nat.ofDigitChars_replicate_zero, Nat.mul_zero]
  exact appended

theorem digits_toDigits (number : Nat) : Digits (Nat.toDigits 10 number) :=
  ⟨Nat.toDigits_ne_nil, fun _ member => Nat.isDigit_of_mem_toDigits (by decide) (by decide) member⟩

theorem isDigit_of_mem_zeros {count : Nat} {char : Char}
    (member : char ∈ List.replicate count '0') : char.isDigit = true := by
  rw [List.eq_of_mem_replicate member]
  rfl

/-- The text writes a decimal with digits and at most one point. -/
inductive Writes (decimal : Decimal) : List Char → Prop where
  | whole {chars : List Char} (digits : Digits chars) (integral : 0 ≤ decimal.exponent)
      (value : digitsValue chars = decimal.digits * 10 ^ decimal.exponent.toNat) :
      Writes decimal chars
  | pointed {whole fraction : List Char} (wholeDigits : Digits whole)
      (fractionDigits : Digits fraction)
      (value : digitsValue (whole ++ fraction) = decimal.digits)
      (places : decimal.exponent = -(fraction.length : Int)) :
      Writes decimal (whole ++ '.' :: fraction)

theorem writes_zeros_after {chars : List Char} (digits : Digits chars) (count : Nat) :
    Writes ⟨digitsValue chars, count⟩ (chars ++ List.replicate count '0') := by
  refine .whole ⟨by simp [digits.1], fun char member => ?_⟩ (by simp) ?_
  · rcases List.mem_append.mp member with inside | zero
    · exact digits.2 char inside
    · exact isDigit_of_mem_zeros zero
  · rw [digitsValue_append_zeros, Int.toNat_natCast]

/-- Digits that are fewer than the places stand behind zeros. -/
theorem writes_zeros_before {chars : List Char} (digits : Digits chars) {places : Nat}
    (short : chars.length ≤ places) :
    Writes ⟨digitsValue chars, -(places : Int)⟩
      (['0'] ++ '.' :: (List.replicate (places - chars.length) '0' ++ chars)) := by
  refine .pointed ⟨by simp, by simp⟩ ⟨by simp [digits.1], fun char member => ?_⟩ ?_ ?_
  · rcases List.mem_append.mp member with zero | inside
    · exact isDigit_of_mem_zeros zero
    · exact digits.2 char inside
  · have filled : ['0'] ++ (List.replicate (places - chars.length) '0' ++ chars) =
        List.replicate (places - chars.length + 1) '0' ++ chars := rfl
    rw [filled, digitsValue_zeros_append]
  · rw [List.length_append, List.length_replicate, Nat.sub_add_cancel short]

/-- Digits that are more than the places stand on both sides of the point. -/
theorem writes_split {chars : List Char} (digits : Digits chars) {places : Nat}
    (some : 0 < places) (long : places < chars.length) :
    Writes ⟨digitsValue chars, -(places : Int)⟩
      (chars.take (chars.length - places) ++ '.' :: chars.drop (chars.length - places)) := by
  have wholeLength : (chars.take (chars.length - places)).length = chars.length - places := by
    rw [List.length_take]
    omega
  have fractionLength : (chars.drop (chars.length - places)).length = places := by
    rw [List.length_drop]
    omega
  refine .pointed ⟨?_, ?_⟩ ⟨?_, ?_⟩ (by rw [List.take_append_drop]) (by rw [fractionLength])
  · exact List.ne_nil_of_length_pos (by omega)
  · exact fun char member => digits.2 char (List.mem_of_mem_take member)
  · exact List.ne_nil_of_length_pos (by omega)
  · exact fun char member => digits.2 char (List.mem_of_mem_drop member)

theorem writes_positional (decimal : Decimal) : Writes decimal decimal.positional := by
  obtain ⟨number, exponent⟩ := decimal
  have digits := digits_toDigits number
  have value := digitsValue_toDigits number
  by_cases integral : 0 ≤ exponent
  · have zeros : exponent = (exponent.toNat : Int) := by omega
    simp only [Decimal.positional, integral, if_true]
    have writes := writes_zeros_after digits exponent.toNat
    rwa [value, ← zeros] at writes
  · have places : exponent = -((-exponent).toNat : Int) := by omega
    simp only [Decimal.positional, integral, if_false]
    -- The point stands in front of all digits or between them.
    by_cases short : (Nat.toDigits 10 number).length ≤ (-exponent).toNat
    · rw [if_pos short]
      have writes := writes_zeros_before digits short
      rwa [value, ← places] at writes
    · rw [if_neg short]
      have writes := writes_split digits (by omega) (Nat.lt_of_not_le short)
      rwa [value, ← places] at writes

/-- Such a text is one of a number token. -/
theorem Writes.fits {decimal : Decimal} {chars : List Char} (writes : Writes decimal chars) :
    TokenKind.number.Fits chars := by
  cases writes with
  | whole digits integral value => exact .inl digits
  | pointed wholeDigits fractionDigits value places =>
      exact .inr ⟨_, _, rfl, wholeDigits, fractionDigits⟩

/-! ## Reading number tokens -/

theorem Decimal.read?_of_digits {chars : List Char} (digits : Digits chars) :
    Decimal.read? chars = some ⟨digitsValue chars, 0⟩ := by
  have kept := List.takeWhile_eq_self_iff.mpr digits.2
  have dropped := List.dropWhile_eq_nil_iff.mpr digits.2
  simp [Decimal.read?, kept, dropped, splitFraction, readExponent?, digits.1]

theorem Decimal.read?_of_point {whole fraction : List Char} (wholeDigits : Digits whole)
    (fractionDigits : Digits fraction) :
    Decimal.read? (whole ++ '.' :: fraction) =
      some ⟨digitsValue (whole ++ fraction), -(fraction.length : Int)⟩ := by
  have atPoint : Lexer.Stops Char.isDigit ('.' :: fraction) := Lexer.stops_cons (by decide) _
  have kept := List.takeWhile_eq_self_iff.mpr fractionDigits.2
  have dropped := List.dropWhile_eq_nil_iff.mpr fractionDigits.2
  simp [Decimal.read?, Lexer.takeWhile_of_stops wholeDigits.2 atPoint,
    Lexer.dropWhile_of_stops wholeDigits.2 atPoint, splitFraction, kept, dropped, readExponent?,
    wholeDigits.1]

/-- The text of a decimal is read as a number with the same double. -/
theorem Writes.read? {decimal : Decimal} {chars : List Char} (writes : Writes decimal chars) :
    ∃ read, Decimal.read? chars = some read ∧ read.magnitude = decimal.magnitude := by
  cases writes with
  | whole digits integral value =>
      refine ⟨_, Decimal.read?_of_digits digits, ?_⟩
      have places : (-decimal.exponent).toNat = 0 := by omega
      simp only [Decimal.magnitude, value, places, Nat.pow_eq]
      simp
  | pointed wholeDigits fractionDigits value places =>
      refine ⟨_, Decimal.read?_of_point wholeDigits fractionDigits, ?_⟩
      rw [value, ← places]

theorem spells_of_digit {first : Char} (digit : first.isDigit = true) (rest : List Char)
    (letter : Char) (letters : List Char) (word : letter.isDigit = false) :
    Text.spells (first :: rest) (String.ofList (letter :: letters)) = false := by
  have lower : first.toLower = first := by
    simp only [Char.isDigit, Bool.and_eq_true, decide_eq_true_eq] at digit
    simp only [Char.toLower]
    rw [dif_neg]
    grind
  have differ : first ≠ letter := by
    rintro rfl
    rw [word] at digit
    cases digit
  simp [Text.spells, lower, differ]

/-- A text that begins with a digit has no sign and is no word. -/
theorem readChars?_of_digit {first : Char} (digit : first.isDigit = true) (rest : List Char) :
    readChars? (first :: rest) =
      (Decimal.read? (first :: rest)).map fun decimal => ofMagnitude false decimal.magnitude := by
  have words : readMagnitude? (first :: rest) =
      (Decimal.read? (first :: rest)).map Decimal.magnitude := by
    have inf : Text.spells (first :: rest) "inf" = false :=
      spells_of_digit digit rest 'i' ['n', 'f'] (by decide)
    have infinity : Text.spells (first :: rest) "infinity" = false :=
      spells_of_digit digit rest 'i' ['n', 'f', 'i', 'n', 'i', 't', 'y'] (by decide)
    have nan : Text.spells (first :: rest) "nan" = false :=
      spells_of_digit digit rest 'n' ['a', 'n'] (by decide)
    simp [readMagnitude?, inf, infinity, nan]
  have noMinus : first ≠ '-' := by
    rintro rfl
    exact absurd digit (by decide)
  have noPlus : first ≠ '+' := by
    rintro rfl
    exact absurd digit (by decide)
  simp [readChars?, noMinus, noPlus, words, Function.comp_def]

/-- The text of a number token is read as the decimal that it writes. -/
theorem readChars?_of_fits {chars : List Char} (fits : TokenKind.number.Fits chars) :
    readChars? chars =
      (Decimal.read? chars).map fun decimal => ofMagnitude false decimal.magnitude := by
  rcases fits with digits | ⟨whole, fraction, rfl, digits, _⟩
  · obtain ⟨first, rest, rfl, digit, _⟩ := digits.exists_cons
    exact readChars?_of_digit digit rest
  · obtain ⟨first, rest, rfl, digit, _⟩ := digits.exists_cons
    exact readChars?_of_digit digit _

/-! ## Numbers shown without a sign -/

theorem display_of_finite {number : Float} (positive : isNegative number = false)
    (finite : magnitude number < infinityMagnitude) :
    display number = String.ofList (shortest (magnitude number)).positional := by
  have notInfinite : magnitude number ≠ infinityMagnitude := Nat.ne_of_lt finite
  simp [display, displayMagnitude, positive, notInfinite, Nat.not_lt_of_lt finite]

/-- The text that is shown for a finite number without a sign is read as this number. -/
theorem read?_display {number : Float} (positive : isNegative number = false)
    (finite : magnitude number < infinityMagnitude) : read? (display number) = some number := by
  have writes := writes_positional (shortest (magnitude number))
  obtain ⟨decimal, read, same⟩ := writes.read?
  rw [display_of_finite positive finite, Number.read?, String.toList_ofList,
    readChars?_of_fits writes.fits, read, Option.map_some, same, magnitude_shortest finite,
    ofMagnitude_magnitude positive]

theorem fits_display {number : Float} (positive : isNegative number = false)
    (finite : magnitude number < infinityMagnitude) :
    TokenKind.number.Fits (display number).toList := by
  rw [display_of_finite positive finite, String.toList_ofList]
  exact (writes_positional (shortest (magnitude number))).fits

/-! ## Numbers on one line -/

theorem unbroken_of_fits {chars : List Char} (fits : TokenKind.number.Fits chars) :
    '\n' ∉ chars := by
  intro member
  rcases fits with digits | ⟨whole, fraction, rfl, wholeDigits, fractionDigits⟩
  · exact absurd (digits.2 _ member) (by decide)
  · rcases List.mem_append.mp member with inside | after
    · exact absurd (wholeDigits.2 _ inside) (by decide)
    · have further : '\n' ∈ fraction := by simpa using after
      exact absurd (fractionDigits.2 _ further) (by decide)

/-- Every number is shown without a line break, signs and words included. -/
theorem display_unbroken (number : Float) : '\n' ∉ (display number).toList := by
  have shown : '\n' ∉ displayMagnitude (magnitude number) := by
    unfold displayMagnitude
    split
    · decide
    · exact unbroken_of_fits (writes_positional _).fits
  unfold display
  split
  · decide
  · rw [String.toList_ofList]
    split
    · simpa using shown
    · exact shown

end ScopeScript.Number

namespace ScopeScript

/-- A valid token that stands alone is read back. -/
theorem tokenize_rendering {token : Token} (valid : token.Valid) :
    tokenize (String.ofList token.rendering) = .ok [token] := by
  have alone : Lexer.Spaced [token] (token.rendering ++ ([] ++ [])) :=
    .cons nofun nofun .nil
  have scanned := Lexer.scan_of_spaced alone (by simpa using valid) []
  rw [List.append_nil, List.append_nil] at scanned
  rw [tokenize_eq_ok, String.toList_ofList, scanned]
  rfl

/-- A number that is finite and has no sign is printed as one number token.  Wherever the
parser asks for an operand, it takes this token for the same number, bit for bit, and adds a
node for it; so as a statement of its own the text is a program whose only node is the
number. -/
theorem printed_number_is_its_literal (number : Float)
    (positive : Number.isNegative number = false) (finite : number.isFinite = true) :
    let token : Token := ⟨.number, (Value.number number).display⟩
    tokenize (Value.number number).display = .ok [token] ∧
      (∀ (state : Parser.State Expr) (context : Parser.Context Expr),
        state.phase = .operand context →
          state.step token = .ok { state with phase := .operator context (.number number) }) ∧
      (∀ (state : Parser.State ExprId) (context : Parser.Context ExprId) (nodes : Array Node),
        state.phase = .operand context →
          (state.step token : Parser.TableParser (Parser.State ExprId)) nodes =
            .ok { state with phase := .operator context nodes.size }
              (nodes.push (.number number))) ∧
      parse [token, ⟨.semicolon, ";"⟩] = .ok ⟨#[.number number], [.expr 0]⟩ := by
  intro token
  have small := (Number.isFinite_iff number).mp finite
  have read : Number.read? token.text = some number := Number.read?_display positive small
  have valid : token.Valid := Number.fits_display positive small
  have operand : ∀ (state : Parser.State Expr) (context : Parser.Context Expr),
      state.stepOperand context token =
        .ok { state with phase := .operator context (.number number) } := by
    intro state context
    simp only [Parser.State.stepOperand, token] at read ⊢
    rw [read]
    rfl
  refine ⟨?_, ?_, ?_, ?_⟩
  · have tokenized := tokenize_rendering valid
    rwa [Token.rendering, if_neg nofun, String.ofList_toList] at tokenized
  · intro state context asked
    rw [Parser.State.step, asked]
    exact operand state context
  · intro state context nodes asked
    rw [Parser.State.step, asked]
    simp only [Parser.State.stepOperand, token] at read ⊢
    rw [read]
    rfl
  · have begun : (Parser.State.start : Parser.State Expr).step token =
        .ok { Parser.State.start with
          phase := .operator ⟨.statement, [], []⟩ (.number number) } :=
      operand Parser.State.start ⟨.statement, [], []⟩
    rw [parse_eq_map_trees, Parser.trees_of_run (Parser.State.run_cons _ begun)]
    rfl

/-- The sum of 0.1 and 0.2 is not 0.3, and it is printed with all the digits that it takes
to tell them apart. -/
theorem sum_of_tenths_is_its_literal :
    let number : Float := Float.ofBits 0x3fd3333333333334
    let token : Token := ⟨.number, "0.30000000000000004"⟩
    Number.isNegative number = false ∧ number.isFinite = true ∧
      (Value.number number).display = token.text ∧ tokenize token.text = .ok [token] ∧
      parse [token, ⟨.semicolon, ";"⟩] = .ok ⟨#[.number number], [.expr 0]⟩ := by
  intro number token
  have positive : Number.isNegative number = false := by decide +kernel
  have finite : number.isFinite = true := by decide +kernel
  have shown : (Value.number number).display = token.text := by decide +kernel
  have literal := printed_number_is_its_literal number positive finite
  simp only [shown] at literal
  exact ⟨positive, finite, shown, literal.1, literal.2.2.2⟩

end ScopeScript
