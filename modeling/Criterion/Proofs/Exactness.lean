/-
# Criterion.Proofs.Exactness — arithmetic that wraps is exact modulo 2^32

Every sum, difference and product in a tree wraps, and so does every negation. Yet nothing is lost
before the end: what 32 bits keep of an integer is its residue modulo 2^32, and residues are added,
subtracted and multiplied as the integers are. The complement belongs with these, as `~x` is
`-x - 1`.

So a tree of such operations (`Expr.isPolynomial`) has for its value the residue of what it comes
to in integers without a bound (`Expr.unbounded?`), however often it wraps on the way
(`Expr.eval_eq_ofInt`). Where 32 bits can hold the exact value they hold just that
(`Expr.eval_exact`). No operand is read as a truth value in such a tree, so it does not matter which
integers are true.
-/
import Criterion.Evaluation
import Mathlib.Data.Int.ModEq

namespace Criterion

set_option autoImplicit false

/-! ## Residues -/

/-- Of the integers of 32 bits one is congruent to `z`. -/
theorem toInt_modEq_iff {n : Int32} {z : Int} :
    n.toInt ≡ z [ZMOD 2 ^ 32] ↔ n = Int32.ofInt z := by
  have self : n.toInt.bmod (2 ^ 32) = n.toInt := n.toInt_bmod
  calc n.toInt ≡ z [ZMOD 2 ^ 32]
    _ ↔ ((2 ^ 32 : Nat) : Int) ∣ z - n.toInt := Int.modEq_iff_dvd
    _ ↔ z.bmod (2 ^ 32) = n.toInt.bmod (2 ^ 32) := by
        rw [Int.dvd_iff_bmod_eq_zero, Int.bmod_eq_bmod_iff_bmod_sub_eq_zero]
    _ ↔ n = Int32.ofInt z := by
        rw [self, ← Int32.ofInt_eq_iff_bmod_eq_toInt, eq_comm]

/-! ## Operators -/

/-- What an operator does to integers without a bound, if residues allow it. -/
def UnaryOp.unbounded? : UnaryOp → Option (Int → Int)
  | .not => none
  | .complement => some fun x => -x - 1
  | .negate => some fun x => -x

/-- What an operator does to integers without a bound, if residues allow it. -/
def BinaryOp.unbounded? : BinaryOp → Option (Int → Int → Int)
  | .add => some fun x y => x + y
  | .subtract => some fun x y => x - y
  | .multiply => some fun x y => x * y
  | _ => none

theorem UnaryOp.apply_ofInt {op : UnaryOp} {f : Int → Int} (operation : op.unbounded? = some f)
    (rule : TruthRule) (x : Int) : op.apply rule (Int32.ofInt x) = Int32.ofInt (f x) := by
  cases op with
  | not => cases operation
  | complement =>
      cases operation
      show ~~~Int32.ofInt x = Int32.ofInt (-x - 1)
      rw [Int32.not_eq_neg_sub, Int32.ofInt_sub, Int32.ofInt_neg]
      rfl
  | negate =>
      cases operation
      exact (Int32.ofInt_neg x).symm

theorem BinaryOp.apply_ofInt {op : BinaryOp} {f : Int → Int → Int}
    (operation : op.unbounded? = some f) (rule : TruthRule) (x y : Int) :
    op.apply rule (Int32.ofInt x) (Int32.ofInt y) = Int32.ofInt (f x y) := by
  cases op with
  | add =>
      cases operation
      exact (Int32.ofInt_add x y).symm
  | subtract =>
      cases operation
      exact (Int32.ofInt_sub x y).symm
  | multiply =>
      cases operation
      exact (Int32.ofInt_mul x y).symm
  | _ => cases operation

namespace Expr

/-! ## Trees -/

/-- A tree of integers, truth values and names under negation, complement, sum, difference and
product. -/
def isPolynomial : Expr → Bool
  | number _ | bool _ | var _ => true
  | unary op operand => op ∈ [.complement, .negate] && operand.isPolynomial
  | binary op left right =>
      op ∈ [.add, .subtract, .multiply] && left.isPolynomial && right.isPolynomial

/-- What such a tree comes to in integers without a bound. -/
def unbounded? (value : String → Option Int32) : Expr → Option Int
  | number n => some n.toInt
  | bool b => some (if b then 1 else 0)
  | var name => some (((value name).map Int32.toInt).getD 0)
  | unary op operand => do
      let f ← op.unbounded?
      return f (← operand.unbounded? value)
  | binary op left right => do
      let f ← op.unbounded?
      return f (← left.unbounded? value) (← right.unbounded? value)

theorem unbounded?_unary_eq_some_iff {value : String → Option Int32} {op : UnaryOp} {operand : Expr}
    {z : Int} : (unary op operand).unbounded? value = some z ↔
      ∃ f, op.unbounded? = some f ∧ ∃ x, operand.unbounded? value = some x ∧ f x = z := by
  simp only [unbounded?, Option.bind_eq_bind, Option.bind_eq_some_iff, Option.pure_def,
    Option.some.injEq]

theorem unbounded?_binary_eq_some_iff {value : String → Option Int32} {op : BinaryOp}
    {left right : Expr} {z : Int} : (binary op left right).unbounded? value = some z ↔
      ∃ f, op.unbounded? = some f ∧
        ∃ x, left.unbounded? value = some x ∧ ∃ y, right.unbounded? value = some y ∧ f x y = z := by
  simp only [unbounded?, Option.bind_eq_bind, Option.bind_eq_some_iff, Option.pure_def,
    Option.some.injEq]

/-- Every polynomial tree comes to an integer. -/
theorem exists_exact (value : String → Option Int32) {e : Expr}
    (polynomial : e.isPolynomial = true) : ∃ z, e.unbounded? value = some z := by
  induction e with
  | number | bool | var => exact ⟨_, rfl⟩
  | unary op operand ih =>
      obtain ⟨known, inner⟩ := Bool.and_eq_true_iff.1 polynomial
      obtain ⟨x, found⟩ := ih inner
      simp only [unbounded?_unary_eq_some_iff, found]
      cases op with
      | not => cases known
      | complement | negate => exact ⟨_, _, rfl, _, rfl, rfl⟩
  | binary op left right ih_left ih_right =>
      simp only [isPolynomial, Bool.and_eq_true] at polynomial
      obtain ⟨⟨known, first⟩, second⟩ := polynomial
      obtain ⟨x, found_left⟩ := ih_left first
      obtain ⟨y, found_right⟩ := ih_right second
      simp only [unbounded?_binary_eq_some_iff, found_left, found_right]
      cases op with
      | add | subtract | multiply => exact ⟨_, _, rfl, _, rfl, _, rfl, rfl⟩
      | _ => cases known

/-- To wrap at every operation comes to the same as to wrap once, at the end. -/
theorem eval_eq_ofInt (rule : TruthRule) {value : String → Option Int32} {e : Expr} {z : Int}
    (exactly : e.unbounded? value = some z) : e.eval rule value = Int32.ofInt z := by
  induction e generalizing z with
  | number n =>
      cases exactly
      exact n.ofInt_toInt.symm
  | bool b =>
      cases exactly
      cases b <;> rfl
  | var name =>
      cases exactly
      show (value name).getD 0 = _
      cases value name with
      | none => rfl
      | some n => exact n.ofInt_toInt.symm
  | unary op operand ih =>
      obtain ⟨f, operation, x, inner, rfl⟩ := unbounded?_unary_eq_some_iff.1 exactly
      rw [eval, ih inner, op.apply_ofInt operation]
  | binary op left right ih_left ih_right =>
      obtain ⟨f, operation, x, first, y, second, rfl⟩ := unbounded?_binary_eq_some_iff.1 exactly
      rw [eval, ih_left first, ih_right second, op.apply_ofInt operation]

/-- The value of a polynomial tree is, of all integers of 32 bits, the one that is congruent to what
the tree comes to without a bound, and is that very integer if 32 bits can hold it. -/
theorem eval_exact {e : Expr} (polynomial : e.isPolynomial = true) (rule : TruthRule)
    (value : String → Option Int32) :
    ∃ z, e.unbounded? value = some z ∧
      (∀ n : Int32, n.toInt ≡ z [ZMOD 2 ^ 32] ↔ n = e.eval rule value) ∧
      (-2 ^ 31 ≤ z → z < 2 ^ 31 → (e.eval rule value).toInt = z) := by
  obtain ⟨z, exactly⟩ := exists_exact value polynomial
  have wrapped := eval_eq_ofInt rule exactly
  refine ⟨z, exactly, fun n => ?_, fun low high => ?_⟩
  · rw [wrapped]
    exact toInt_modEq_iff
  · rw [wrapped]
    exact Int32.toInt_ofInt_of_le low high

/-- The opposite of the least integer is out of range, so its complement is wrapped. The square of
65536 is out of range too, but not the difference of two such squares. -/
theorem eval_exact_least :
    (∀ rule, (unary .complement (unary .negate (number (-2147483648)))).eval rule
      (fun _ => none) = 2147483647) ∧
    ∀ rule, ((binary .subtract (binary .multiply (var "n") (var "n"))
      (binary .subtract (binary .multiply (var "n") (var "n")) (number 7))).eval rule
        fun _ => some 65536).toInt = 7 := by
  constructor
  · intro rule
    obtain ⟨z, exactly, congruent, _⟩ :=
      eval_exact (e := unary .complement (unary .negate (number (-2147483648)))) rfl rule
        fun _ => none
    have value : z = -2147483649 := (Option.some.inj exactly).symm
    subst value
    exact ((congruent 2147483647).1 (by decide)).symm
  · intro rule
    obtain ⟨z, exactly, _, fits⟩ :=
      eval_exact (e := binary .subtract (binary .multiply (var "n") (var "n"))
        (binary .subtract (binary .multiply (var "n") (var "n")) (number 7))) rfl rule
        fun _ => some 65536
    have value : z = 7 := (Option.some.inj exactly).symm
    subst value
    exact fits (by decide) (by decide)

end Expr

end Criterion
