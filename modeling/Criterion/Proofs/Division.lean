/-
# Criterion.Proofs.Division — quotient and remainder fit together

Division truncates toward zero, so a remainder is zero or has the sign of the dividend, and it is
smaller than the divisor. The quotient of the least integer by -1 is the only one that 32 bits cannot
hold. It wraps to the least integer, which leaves no remainder; so quotient times divisor plus
remainder is the dividend there as well, in arithmetic that wraps (`quotientOf_mul_add_remainderOf`).

By zero, both are zero. Then the dividend cannot be had back, and no integer is without an answer.
-/
import Criterion.Evaluation

namespace Criterion

set_option autoImplicit false

section

variable {r : Int32} (nonzero : r ≠ 0)

include nonzero

/-- A quotient is the exact one, wrapped. -/
theorem quotientOf_eq_ofInt (l : Int32) :
    quotientOf l r = Int32.ofInt (l.toInt.tdiv r.toInt) := by
  rw [quotientOf, if_neg nonzero, eq_comm, Int32.ofInt_eq_iff_bmod_eq_toInt, Int32.toInt_div]

/-- A remainder is the exact one, and never has to wrap. -/
theorem toInt_remainderOf (l : Int32) : (remainderOf l r).toInt = l.toInt.tmod r.toInt := by
  rw [remainderOf, if_neg nonzero, Int32.toInt_mod]

/-- Whatever wraps in the quotient wraps back in the product. -/
theorem quotientOf_mul_add_remainderOf (l : Int32) :
    quotientOf l r * r + remainderOf l r = l :=
  calc quotientOf l r * r + remainderOf l r
    _ = Int32.ofInt (l.toInt.tdiv r.toInt) * Int32.ofInt r.toInt +
          Int32.ofInt (l.toInt.tmod r.toInt) := by
        rw [quotientOf_eq_ofInt nonzero, ← toInt_remainderOf nonzero, Int32.ofInt_toInt,
          Int32.ofInt_toInt]
    _ = Int32.ofInt (l.toInt.tdiv r.toInt * r.toInt + l.toInt.tmod r.toInt) := by
        rw [Int32.ofInt_add, Int32.ofInt_mul]
    _ = l := by rw [Int.tdiv_mul_add_tmod, Int32.ofInt_toInt]

theorem natAbs_remainderOf_lt (l : Int32) :
    (remainderOf l r).toInt.natAbs < r.toInt.natAbs := by
  have some_value : r.toInt ≠ 0 := fun zero => nonzero (Int32.toInt_inj.1 zero)
  rw [toInt_remainderOf nonzero, Int.natAbs_tmod]
  exact Nat.mod_lt _ (Int.natAbs_pos.2 some_value)

theorem sign_remainderOf (l : Int32) :
    remainderOf l r = 0 ∨ (remainderOf l r).toInt.sign = l.toInt.sign := by
  have sign := Int.sign_tmod l.toInt r.toInt
  rw [← toInt_remainderOf nonzero] at sign
  split at sign
  · exact .inl (Int32.toInt_inj.1 (Int.sign_eq_zero_iff_zero.1 sign))
  · exact .inr sign

/-- One quotient alone has to wrap. -/
theorem toInt_quotientOf {l : Int32} (fits : ¬(l = Int32.minValue ∧ r = -1)) :
    (quotientOf l r).toInt = l.toInt.tdiv r.toInt := by
  rw [quotientOf, if_neg nonzero]
  by_cases least : l = Int32.minValue
  · exact Int32.toInt_div_of_ne_right l r fun minus => fits ⟨least, minus⟩
  · exact Int32.toInt_div_of_ne_left l r least

end

/-- The opposite of the least integer is the least integer, and nothing is left of it. -/
theorem quotientOf_least :
    quotientOf Int32.minValue (-1) = Int32.minValue ∧ remainderOf Int32.minValue (-1) = 0 := by
  decide

namespace BinaryOp

/-- Whatever the operands, quotient and remainder are settled. By zero they are zero. By any other
divisor they give the dividend back, the remainder is smaller than the divisor and does not change
sign, and the quotient is exact up to truncation toward zero, but for that of the least integer by
-1. -/
theorem divide_and_remainder (rule : TruthRule) (l r : Int32) :
    let quotient := divide.apply rule l r
    let rest := remainder.apply rule l r
    (r = 0 → quotient = 0 ∧ rest = 0) ∧
    (r ≠ 0 →
      add.apply rule (multiply.apply rule quotient r) rest = l ∧
      rest.toInt.natAbs < r.toInt.natAbs ∧
      (rest = 0 ∨ rest.toInt.sign = l.toInt.sign) ∧
      (¬(l = Int32.minValue ∧ r = -1) → quotient.toInt = l.toInt.tdiv r.toInt)) ∧
    (l = Int32.minValue → r = -1 → quotient = Int32.minValue ∧ rest = 0) := by
  intro quotient rest
  refine ⟨fun zero => ?_, fun nonzero => ⟨?_, ?_, ?_, ?_⟩, ?_⟩
  · exact ⟨if_pos zero, if_pos zero⟩
  · exact quotientOf_mul_add_remainderOf nonzero l
  · exact natAbs_remainderOf_lt nonzero l
  · exact sign_remainderOf nonzero l
  · exact fun fits => toInt_quotientOf nonzero fits
  · rintro rfl rfl
    exact quotientOf_least

/-- A quotient of integers of different sign is truncated upwards. The one that wraps still gives the
dividend back. -/
theorem divide_and_remainder_least :
    ((divide.apply .positive (-7) 2).toInt = (-7 : Int).tdiv 2 ∧
      (remainder.apply .positive (-7) 2).toInt.sign = -1) ∧
    (divide.apply .nonzero Int32.minValue (-1) = Int32.minValue ∧
      add.apply .nonzero (multiply.apply .nonzero Int32.minValue (-1)) 0 = Int32.minValue) ∧
    divide.apply .nonzero Int32.minValue 0 = 0 := by
  obtain ⟨_, uneven, _⟩ := divide_and_remainder .positive (-7) 2
  obtain ⟨_, _, sign, truncated⟩ := uneven (by decide)
  obtain ⟨_, least, wrapped⟩ := divide_and_remainder .nonzero Int32.minValue (-1)
  obtain ⟨quotient, rest⟩ := wrapped rfl rfl
  obtain ⟨back, _⟩ := least (by decide)
  obtain ⟨zero, _⟩ := divide_and_remainder .nonzero Int32.minValue 0
  rw [quotient, rest] at back
  exact ⟨⟨truncated (by decide), sign.resolve_left (by decide)⟩, ⟨quotient, back⟩, (zero rfl).1⟩

end BinaryOp

end Criterion
