import Mathlib.Algebra.Order.Group.Nat
import Mathlib.Algebra.Order.Sub.Basic
import ScopeScript.Number.Text

/-!
Contract: the decimal that is shown for a finite double rounds to this double.

Owns: the doubles as multiples of their unit, rounding of a ratio that is such a
multiple, and the search for the shortest decimal.

Rounding need not be understood for arbitrary ratios here.  The search tests each of its
candidates by rounding it, and the decimal that it falls back to is the exact value, where
rounding has nothing to decide.
-/

set_option autoImplicit false

namespace ScopeScript.Number

/-! ## Exact ratios -/

/-- How many places the significand of a magnitude is shifted to give its units. -/
def unitShift (magnitude : Nat) : Nat :=
  magnitude / binade - 1

/-- The magnitude without its shift: the digits of the double in binary. -/
def significand (magnitude : Nat) : Nat :=
  magnitude - unitShift magnitude * binade

theorem shift_add_significand (magnitude : Nat) :
    unitShift magnitude * binade + significand magnitude = magnitude := by
  have shifted : unitShift magnitude * binade ≤ magnitude :=
    calc unitShift magnitude * binade ≤ magnitude / binade * binade :=
          Nat.mul_le_mul_right _ (Nat.sub_le _ _)
      _ ≤ magnitude := Nat.div_mul_le_self _ _
  rw [significand]
  omega

theorem units_eq_shifted (magnitude : Nat) :
    units magnitude = significand magnitude * 2 ^ unitShift magnitude := by
  have split := Nat.div_add_mod magnitude binade
  unfold units significand unitShift
  by_cases small : magnitude / binade = 0
  · simp [small]
  · obtain ⟨shift, field⟩ := Nat.exists_eq_add_one_of_ne_zero small
    have whole : magnitude - shift * binade = binade + magnitude % binade := by
      rw [field, Nat.mul_comm, Nat.succ_mul] at split
      omega
    simp [field, whole]

theorem binade_eq : binade = 2 ^ fractionBits := rfl

/-- A shifted significand fills all its places. -/
theorem binade_le_significand {magnitude : Nat} (shifted : unitShift magnitude ≠ 0) :
    binade ≤ significand magnitude := by
  have whole := shift_add_significand magnitude
  have split := Nat.div_mul_le_self magnitude binade
  have field : magnitude / binade = unitShift magnitude + 1 := by
    unfold unitShift at shifted ⊢
    omega
  rw [field, Nat.succ_mul] at split
  omega

theorem significand_lt (magnitude : Nat) : significand magnitude < 2 ^ (fractionBits + 1) := by
  have whole := shift_add_significand magnitude
  have below : magnitude < (magnitude / binade + 1) * binade := by
    rw [Nat.mul_comm]
    exact Nat.lt_mul_div_succ magnitude (by decide)
  have field : magnitude / binade + 1 ≤ unitShift magnitude + 2 := by
    unfold unitShift
    omega
  have bound := Nat.mul_le_mul_right binade field
  rw [Nat.add_mul (unitShift magnitude)] at bound
  rw [Nat.pow_succ, ← binade_eq]
  omega

/-- The shift is known from the number of units. -/
theorem log2_units (magnitude : Nat) :
    (units magnitude).log2 - fractionBits = unitShift magnitude := by
  rw [units_eq_shifted]
  by_cases shifted : unitShift magnitude = 0
  -- Without a shift the significand may leave its places unfilled: an upper bound is enough.
  · rw [shifted, Nat.pow_zero, Nat.mul_one]
    by_cases zero : significand magnitude = 0
    · simp [zero]
    · have below := (Nat.log2_lt zero).mpr (significand_lt magnitude)
      omega
  · have filled := binade_le_significand shifted
    rw [binade_eq] at filled
    have power : 0 < 2 ^ unitShift magnitude := Nat.two_pow_pos _
    have positive : significand magnitude * 2 ^ unitShift magnitude ≠ 0 :=
      Nat.ne_of_gt (Nat.mul_pos (Nat.lt_of_lt_of_le (Nat.two_pow_pos _) filled) power)
    have exact : (significand magnitude * 2 ^ unitShift magnitude).log2 =
        fractionBits + unitShift magnitude := by
      refine (Nat.log2_eq_iff positive).mpr ⟨?_, ?_⟩
      · rw [Nat.pow_add]
        exact Nat.mul_le_mul_right _ filled
      · rw [Nat.add_right_comm, Nat.pow_add]
        exact Nat.mul_lt_mul_of_pos_right (significand_lt magnitude) power
    omega

theorem roundHalfEven_of_multiple (quotient : Nat) {denominator : Nat}
    (positive : 0 < denominator) :
    roundHalfEven (quotient * denominator) denominator = quotient := by
  simp [roundHalfEven, Nat.mul_div_cancel quotient positive, positive]

/-- A ratio that is exactly the value of a finite double rounds to this double. -/
theorem nearestMagnitude_of_units {magnitude numerator denominator : Nat}
    (finite : magnitude < infinityMagnitude) (positive : 0 < denominator)
    (exact : numerator * Nat.pow 2 unitExponent = units magnitude * denominator) :
    nearestMagnitude numerator denominator = magnitude := by
  have shift : (units magnitude * denominator / denominator).log2 - fractionBits =
      unitShift magnitude := by
    rw [Nat.mul_div_cancel _ positive, log2_units]
  have scaled : units magnitude * denominator =
      significand magnitude * (denominator * Nat.pow 2 (unitShift magnitude)) := by
    rw [units_eq_shifted, Nat.mul_assoc, Nat.mul_comm (2 ^ _)]
    rfl
  have divisor : 0 < denominator * Nat.pow 2 (unitShift magnitude) :=
    Nat.mul_pos positive (Nat.pow_pos (by decide))
  simp only [nearestMagnitude, exact]
  rw [shift, scaled, roundHalfEven_of_multiple _ divisor, shift_add_significand]
  exact Nat.min_eq_left (Nat.le_of_lt finite)

/-! ## The search -/

theorem magnitude_exactDecimal {magnitude : Nat} (finite : magnitude < infinityMagnitude) :
    (exactDecimal magnitude).magnitude = magnitude := by
  apply nearestMagnitude_of_units finite (Nat.pow_pos (by decide))
  have whole : (-(unitExponent : Int)).toNat = 0 := by simp
  have places : (- -(unitExponent : Int)).toNat = unitExponent := by simp
  simp only [exactDecimal, whole, places]
  simp only [Nat.pow_eq]
  rw [Nat.pow_zero, Nat.mul_one, Nat.mul_assoc, ← Nat.mul_pow]

theorem magnitude_zero : ({ digits := 0, exponent := 0 } : Decimal).magnitude = 0 := by
  apply nearestMagnitude_of_units (by decide) (Nat.pow_pos (by decide))
  simp [units]

theorem magnitude_of_neighbour? {magnitude : Nat} {exponent : Int} {decimal : Decimal}
    (found : neighbour? magnitude exponent = some decimal) : decimal.magnitude = magnitude := by
  have tested := List.find?_some found
  exact beq_iff_eq.mp tested

theorem magnitude_of_coarsest? {magnitude grids : Nat} {exponent : Int} {decimal : Decimal}
    (found : coarsest? magnitude grids exponent = some decimal) :
    decimal.magnitude = magnitude := by
  induction grids generalizing exponent with
  | zero => cases found
  | succ grids inductionHypothesis =>
      rw [coarsest?, Option.or_eq_some_iff] at found
      rcases found with here | ⟨_, finer⟩
      · exact magnitude_of_neighbour? here
      · exact inductionHypothesis finer

/-- The shortest decimal of a finite double rounds to this double. -/
theorem magnitude_shortest {magnitude : Nat} (finite : magnitude < infinityMagnitude) :
    (shortest magnitude).magnitude = magnitude := by
  unfold shortest
  by_cases zero : magnitude = 0
  · rw [if_pos zero, zero, magnitude_zero]
  · rw [if_neg zero]
    cases found : coarsest? magnitude gridCount (exponentAbove magnitude) with
    | some decimal => exact magnitude_of_coarsest? found
    | none => exact magnitude_exactDecimal finite

end ScopeScript.Number
