import ScopeScript.Proofs.NumberText

/-!
Contract: a whole number up to `2 ^ 53` is read and shown without change.

Owns: the largest double below a ratio, the order of doubles under rounding, the whole
numbers that are doubles, and the grid where the search for the shortest decimal ends for
one of them.

Above `2 ^ 53` two whole numbers can have one double.  The search meets only multiples of
ten on its coarser grids, and the least such number above `2 ^ 53` already has a larger
double.
-/

set_option autoImplicit false

namespace ScopeScript.Number

/-! ## Rounding keeps the order -/

/-- The largest magnitude of at most this many units. -/
def magnitudeBelow (count : Nat) : Nat :=
  (count.log2 - fractionBits) * binade + count / 2 ^ (count.log2 - fractionBits)

theorem count_lt (count : Nat) : count < 2 ^ (count.log2 - fractionBits) * (2 * binade) := by
  have places : count.log2 + 1 ≤ count.log2 - fractionBits + (fractionBits + 1) := by omega
  calc count < 2 ^ (count.log2 + 1) := Nat.lt_log2_self
    _ ≤ 2 ^ (count.log2 - fractionBits + (fractionBits + 1)) :=
        Nat.pow_le_pow_right (by decide) places
    _ = 2 ^ (count.log2 - fractionBits) * (2 * binade) := by
        rw [Nat.pow_add, Nat.pow_succ 2 fractionBits, binade_eq, Nat.mul_comm 2]

/-- Where there is a shift, the digits that are kept fill their places. -/
theorem binade_le_kept {count : Nat} (shifted : count.log2 - fractionBits ≠ 0) :
    binade ≤ count / 2 ^ (count.log2 - fractionBits) := by
  have nonzero : count ≠ 0 := by
    rintro rfl
    simp at shifted
  rw [Nat.le_div_iff_mul_le (Nat.two_pow_pos _), binade_eq, ← Nat.pow_add]
  have places : fractionBits + (count.log2 - fractionBits) = count.log2 := by omega
  rw [places]
  exact Nat.log2_self_le nonzero

theorem kept_lt (count : Nat) : count / 2 ^ (count.log2 - fractionBits) < 2 * binade :=
  Nat.div_lt_of_lt_mul (count_lt count)

theorem unitShift_magnitudeBelow (count : Nat) :
    unitShift (magnitudeBelow count) = count.log2 - fractionBits := by
  have bound := kept_lt count
  have positive : 0 < binade := by decide
  unfold unitShift magnitudeBelow
  by_cases shifted : count.log2 - fractionBits = 0
  · rw [shifted] at bound ⊢
    rw [Nat.zero_mul, Nat.zero_add]
    have field : count / 2 ^ 0 / binade < 2 := Nat.div_lt_of_lt_mul (by rwa [Nat.mul_comm])
    omega
  · have filled := binade_le_kept shifted
    rw [Nat.mul_comm, Nat.mul_add_div positive]
    have field : count / 2 ^ (count.log2 - fractionBits) / binade = 1 :=
      Nat.div_eq_of_lt_le (by rwa [Nat.one_mul]) bound
    omega

theorem units_magnitudeBelow (count : Nat) :
    units (magnitudeBelow count) =
      count / 2 ^ (count.log2 - fractionBits) * 2 ^ (count.log2 - fractionBits) := by
  have kept : significand (magnitudeBelow count) = count / 2 ^ (count.log2 - fractionBits) := by
    rw [significand, unitShift_magnitudeBelow, magnitudeBelow, Nat.add_sub_cancel_left]
  rw [units_eq_shifted, kept, unitShift_magnitudeBelow]

theorem magnitudeBelow_mono {fewer more : Nat} (le : fewer ≤ more) :
    magnitudeBelow fewer ≤ magnitudeBelow more := by
  unfold magnitudeBelow
  by_cases zero : fewer = 0
  · simp [zero]
  have longer : fewer.log2 ≤ more.log2 :=
    (Nat.le_log2 (by omega)).mpr (Nat.le_trans (Nat.log2_self_le zero) le)
  rcases Nat.eq_or_lt_of_le (Nat.sub_le_sub_right longer fractionBits) with same | further
  · rw [same]
    exact Nat.add_le_add_left (Nat.div_le_div_right le) _
  -- With one shift more, the next binade begins above all digits that can be kept.
  · have bound := kept_lt fewer
    have filled : binade ≤ more / 2 ^ (more.log2 - fractionBits) := binade_le_kept (by omega)
    have field := Nat.mul_le_mul_right binade (Nat.succ_le_of_lt further)
    rw [Nat.succ_mul] at field
    omega

theorem div_le_roundHalfEven (numerator denominator : Nat) :
    numerator / denominator ≤ roundHalfEven numerator denominator := by
  simp only [roundHalfEven]
  split_ifs <;> omega

/-- Rounding does not go below a double that is below the ratio. -/
theorem le_nearestMagnitude {bound numerator denominator : Nat}
    (below : bound ≤ magnitudeBelow (numerator * Nat.pow 2 unitExponent / denominator))
    (finite : bound ≤ infinityMagnitude) : bound ≤ nearestMagnitude numerator denominator := by
  refine Nat.le_min.mpr ⟨Nat.le_trans below ?_, finite⟩
  unfold magnitudeBelow
  rw [Nat.div_div_eq_div_mul]
  exact Nat.add_le_add_left (div_le_roundHalfEven _ _) _

/-! ## Whole numbers that are doubles -/

/-- Whole numbers up to this bound are doubles. -/
def wholeBound : Nat := 2 ^ 53

/-- The number of units of a whole number. -/
def wholeUnits (number : Nat) : Nat :=
  number * 2 ^ unitExponent

theorem wholeUnits_eq (number : Nat) : number * Nat.pow 2 unitExponent = wholeUnits number := by
  rw [wholeUnits, Nat.pow_eq]

theorem wholeUnits_mono {fewer more : Nat} (le : fewer ≤ more) :
    wholeUnits fewer ≤ wholeUnits more :=
  Nat.mul_le_mul_right _ le

theorem log2_wholeUnits {number : Nat} (positive : 0 < number) :
    (wholeUnits number).log2 = number.log2 + unitExponent := by
  have power : 0 < 2 ^ unitExponent := Nat.two_pow_pos _
  have nonzero : number * 2 ^ unitExponent ≠ 0 := Nat.ne_of_gt (Nat.mul_pos positive power)
  rw [wholeUnits, Nat.log2_eq_iff nonzero]
  refine ⟨?_, ?_⟩
  · rw [Nat.pow_add]
    exact Nat.mul_le_mul_right _ (Nat.log2_self_le (Nat.ne_of_gt positive))
  · rw [Nat.add_right_comm, Nat.pow_add]
    exact Nat.mul_lt_mul_of_pos_right Nat.lt_log2_self power

/-- The units of a whole number up to the bound are cut by no shift. -/
theorem units_magnitudeBelow_whole {number : Nat} (small : number ≤ wholeBound) :
    units (magnitudeBelow (wholeUnits number)) = wholeUnits number := by
  rw [units_magnitudeBelow]
  apply Nat.div_mul_cancel
  rcases Nat.eq_zero_or_pos number with rfl | positive
  · exact ⟨0, by simp [wholeUnits]⟩
  rw [log2_wholeUnits positive]
  rcases Nat.eq_or_lt_of_le small with rfl | below
  · decide +kernel
  · have short : number.log2 < 53 := (Nat.log2_lt (Nat.ne_of_gt positive)).mpr below
    have divides : 2 ^ (number.log2 + unitExponent - fractionBits) ∣ 2 ^ unitExponent :=
      Nat.pow_dvd_pow 2 (by unfold fractionBits; omega)
    rw [wholeUnits]
    exact Nat.dvd_mul_left_of_dvd divides number

theorem magnitudeBelow_whole_lt {number : Nat} (small : number ≤ wholeBound) :
    magnitudeBelow (wholeUnits number) < magnitudeBelow (wholeUnits (wholeBound + 2)) :=
  calc magnitudeBelow (wholeUnits number) ≤ magnitudeBelow (wholeUnits wholeBound) :=
        magnitudeBelow_mono (wholeUnits_mono small)
    _ < magnitudeBelow (wholeUnits (wholeBound + 2)) := by decide +kernel

theorem magnitudeBelow_whole_finite :
    magnitudeBelow (wholeUnits (wholeBound + 2)) < infinityMagnitude := by
  decide +kernel

theorem nearestMagnitude_whole {number : Nat} (small : number ≤ wholeBound) :
    nearestMagnitude number 1 = magnitudeBelow (wholeUnits number) := by
  have finite := Nat.lt_trans (magnitudeBelow_whole_lt small) magnitudeBelow_whole_finite
  refine nearestMagnitude_of_units finite Nat.one_pos ?_
  rw [units_magnitudeBelow_whole small, Nat.mul_one, wholeUnits_eq]

/-- A multiple of ten has the double of a number up to the bound only if it is this number. -/
theorem eq_of_nearestMagnitude {number multiple : Nat} (small : number ≤ wholeBound)
    (tens : 10 ∣ multiple) (same : nearestMagnitude multiple 1 = nearestMagnitude number 1) :
    multiple = number := by
  rcases Nat.lt_or_ge wholeBound multiple with high | low
  -- The odd number next to the bound would round down to it; it is no multiple of ten.
  · have further : wholeBound + 2 ≤ multiple := by
      unfold wholeBound at high ⊢
      omega
    have above : magnitudeBelow (wholeUnits (wholeBound + 2)) ≤ nearestMagnitude multiple 1 := by
      refine le_nearestMagnitude ?_ (Nat.le_of_lt magnitudeBelow_whole_finite)
      rw [Nat.div_one, wholeUnits_eq]
      exact magnitudeBelow_mono (wholeUnits_mono further)
    have below := magnitudeBelow_whole_lt small
    rw [same, nearestMagnitude_whole small] at above
    omega
  · rw [nearestMagnitude_whole low, nearestMagnitude_whole small] at same
    have counts := congrArg units same
    rw [units_magnitudeBelow_whole low, units_magnitudeBelow_whole small] at counts
    exact Nat.eq_of_mul_eq_mul_right (Nat.two_pow_pos unitExponent) counts

/-! ## The search for a whole number -/

theorem exponent_of_neighbour? {magnitude : Nat} {exponent : Int} {decimal : Decimal}
    (found : neighbour? magnitude exponent = some decimal) : decimal.exponent = exponent := by
  have candidate := List.mem_of_find?_eq_some found
  obtain ⟨digits, _, rfl⟩ := List.mem_map.mp candidate
  rfl

theorem Decimal.magnitude_of_integral {decimal : Decimal} (integral : 0 ≤ decimal.exponent) :
    decimal.magnitude = nearestMagnitude (decimal.digits * 10 ^ decimal.exponent.toNat) 1 := by
  have places : (-decimal.exponent).toNat = 0 := by omega
  rw [Decimal.magnitude, places, Nat.pow_eq, Nat.pow_eq, Nat.pow_zero]

/-- On the grid of the whole numbers the search ends at the number itself. -/
theorem neighbour?_whole {number : Nat} (small : number ≤ wholeBound) :
    neighbour? (nearestMagnitude number 1) 0 = some ⟨number, 0⟩ := by
  have power : 0 < 2 ^ unitExponent := Nat.two_pow_pos _
  have counted : units (nearestMagnitude number 1) = number * 2 ^ unitExponent := by
    rw [nearestMagnitude_whole small, units_magnitudeBelow_whole small, wholeUnits]
  have reads : (⟨number, 0⟩ : Decimal).magnitude = nearestMagnitude number 1 := by
    simp [Decimal.magnitude_of_integral]
  unfold neighbour?
  simp [counted, power, reads]

/-- What a grid of multiples of ten finds for a whole number is this number. -/
theorem value_of_neighbour? {number exponent : Nat} {decimal : Decimal}
    (small : number ≤ wholeBound)
    (found : neighbour? (nearestMagnitude number 1) (exponent + 1 : Nat) = some decimal) :
    decimal.digits * 10 ^ decimal.exponent.toNat = number := by
  have step := exponent_of_neighbour? found
  have reads := magnitude_of_neighbour? found
  rw [Decimal.magnitude_of_integral (by omega)] at reads
  refine eq_of_nearestMagnitude small ?_ reads
  rw [step, Int.toNat_natCast, Nat.pow_succ]
  exact ⟨decimal.digits * 10 ^ exponent, by ring⟩

theorem coarsest?_whole {number : Nat} (small : number ≤ wholeBound) {grids exponent : Nat}
    (enough : exponent < grids) :
    ∃ decimal, coarsest? (nearestMagnitude number 1) grids exponent = some decimal ∧
      0 ≤ decimal.exponent ∧ decimal.digits * 10 ^ decimal.exponent.toNat = number := by
  induction grids generalizing exponent with
  | zero => exact absurd enough (Nat.not_lt_zero _)
  | succ grids inductionHypothesis =>
      rw [coarsest?]
      cases exponent with
      | zero =>
          refine ⟨⟨number, 0⟩, ?_, Int.le_refl 0, by simp⟩
          rw [Int.natCast_zero, neighbour?_whole small, Option.some_or]
      | succ exponent =>
          have finer : ((exponent + 1 : Nat) : Int) - 1 = exponent := by omega
          rw [finer]
          cases found : neighbour? (nearestMagnitude number 1) (exponent + 1 : Nat) with
          | some decimal =>
              have step := exponent_of_neighbour? found
              exact ⟨decimal, Option.some_or, by omega, value_of_neighbour? small found⟩
          | none => exact inductionHypothesis (by omega)

/-- The search begins on a grid that it leaves in time for the whole numbers. -/
theorem exponentAbove_whole {number : Nat} (positive : 0 < number) (small : number ≤ wholeBound) :
    ∃ exponent : Nat, exponentAbove (nearestMagnitude number 1) = exponent ∧
      exponent < gridCount := by
  have short : number.log2 < 54 :=
    (Nat.log2_lt (Nat.ne_of_gt positive)).mpr (Nat.lt_of_le_of_lt small (by decide))
  have above : exponentAbove (nearestMagnitude number 1) =
      ((number.log2 : Int) + 1) * 30103 / 100000 + 1 := by
    rw [exponentAbove, nearestMagnitude_whole small, units_magnitudeBelow_whole small,
      log2_wholeUnits positive]
    push_cast
    ring_nf
  refine ⟨(exponentAbove (nearestMagnitude number 1)).toNat, ?_, ?_⟩
  · omega
  · unfold gridCount
    omega

theorem nearestMagnitude_ne_zero {number : Nat} (positive : 0 < number)
    (small : number ≤ wholeBound) : nearestMagnitude number 1 ≠ 0 := by
  intro zero
  have counted := units_magnitudeBelow_whole small
  rw [← nearestMagnitude_whole small, zero] at counted
  have some : 0 < wholeUnits number := Nat.mul_pos positive (Nat.two_pow_pos _)
  have none : units 0 = 0 := rfl
  omega

/-! ## Text -/

theorem toDigits_mul_pow {digits : Nat} (positive : 0 < digits) (zeros : Nat) :
    Nat.toDigits 10 (digits * 10 ^ zeros) = Nat.toDigits 10 digits ++ List.replicate zeros '0' := by
  induction zeros with
  | zero => simp
  | succ zeros inductionHypothesis =>
      have shifted : digits * 10 ^ (zeros + 1) = 10 * (digits * 10 ^ zeros) + 0 := by ring
      have before : 0 < digits * 10 ^ zeros := Nat.mul_pos positive (Nat.pow_pos (by decide))
      rw [shifted, ← Nat.toDigits_append_toDigits (by decide) before (by decide),
        inductionHypothesis, Nat.toDigits_zero, List.append_assoc, ← List.replicate_succ']

theorem positional_of_integral {decimal : Decimal} {number : Nat} (positive : 0 < number)
    (integral : 0 ≤ decimal.exponent)
    (value : decimal.digits * 10 ^ decimal.exponent.toNat = number) :
    decimal.positional = Nat.toDigits 10 number := by
  have some : 0 < decimal.digits := by
    by_contra none
    have zero : decimal.digits = 0 := by omega
    rw [zero, Nat.zero_mul] at value
    omega
  rw [Decimal.positional, if_pos integral, ← value, toDigits_mul_pow some]

/-- The shortest decimal of a whole number up to the bound is written with the digits of the
number. -/
theorem positional_shortest_whole {number : Nat} (small : number ≤ wholeBound) :
    (shortest (nearestMagnitude number 1)).positional = Nat.toDigits 10 number := by
  rcases Nat.eq_zero_or_pos number with rfl | positive
  · have zero : nearestMagnitude 0 1 = 0 := magnitude_zero
    rw [zero]
    rfl
  · obtain ⟨exponent, above, enough⟩ := exponentAbove_whole positive small
    obtain ⟨decimal, found, integral, value⟩ := coarsest?_whole small enough
    rw [shortest, if_neg (nearestMagnitude_ne_zero positive small), above, found,
      Option.getD_some, positional_of_integral positive integral value]

/-- The number that the digits of a whole number are read as. -/
def ofNat (number : Nat) : Float :=
  ofMagnitude false (nearestMagnitude number 1)

theorem read?_repr (number : Nat) : read? number.repr = some (ofNat number) := by
  have digits := digits_toDigits number
  rw [read?, Nat.toList_repr, readChars?_of_fits (.inl digits), Decimal.read?_of_digits digits,
    digitsValue_toDigits]
  simp [Decimal.magnitude_of_integral, ofNat]

/-- A whole number up to the bound is shown with its digits. -/
theorem display_ofNat {number : Nat} (small : number ≤ wholeBound) :
    display (ofNat number) = number.repr := by
  have finite : nearestMagnitude number 1 < infinityMagnitude := by
    rw [nearestMagnitude_whole small]
    exact Nat.lt_trans (magnitudeBelow_whole_lt small) magnitudeBelow_whole_finite
  have bits := toNat_toBits_ofMagnitude (Nat.le_of_lt finite)
  have unsigned : nearestMagnitude number 1 < signBit := Nat.lt_trans finite (by decide)
  have positive : isNegative (ofNat number) = false := by
    rw [isNegative, ofNat, bits]
    simpa using unsigned
  have same : magnitude (ofNat number) = nearestMagnitude number 1 := by
    rw [magnitude, ofNat, bits, Nat.mod_eq_of_lt unsigned]
  rw [display_of_finite positive (by rwa [same]), same, positional_shortest_whole small,
    Nat.repr_eq_ofList_toDigits]

end ScopeScript.Number
