/-
# Criterion.Evaluation — the integer value of a tree

Evaluation cannot fail. Arithmetic is that of 32-bit words and wraps; division truncates, and a
division by zero and its remainder are zero; a name without a value is zero. Truth values are the
integers 1 and 0. Which integers count as true for `!`, `&&` and `||` is a `TruthRule`. Both
operands of an operator are always evaluated, which cannot be observed.
-/
import Criterion.Expr

namespace Criterion

set_option autoImplicit false

/-- Which integers count as true. -/
inductive TruthRule where
  /-- Those above zero: for variables that count things. -/
  | positive
  /-- All but zero. -/
  | nonzero
deriving DecidableEq, Repr

namespace TruthRule

/-- The rule where none is chosen. -/
def standard : TruthRule := .nonzero

def holds : TruthRule → Int32 → Bool
  | positive, n => 0 < n
  | nonzero, n => n != 0

/-- The rules differ on negative integers alone. -/
theorem holds_positive_eq_nonzero {n : Int32} (h : 0 ≤ n) : positive.holds n = nonzero.holds n := by
  rw [Bool.eq_iff_iff]
  simp only [holds, decide_eq_true_eq, bne_iff_ne]
  rw [Int32.lt_iff_toInt_lt, Ne, ← Int32.toInt_inj]
  rw [Int32.le_iff_toInt_le] at h
  omega

end TruthRule

def UnaryOp.apply (rule : TruthRule) : UnaryOp → Int32 → Int32
  | .not, n => (!rule.holds n).toInt32
  | .complement, n => ~~~n
  | .negate, n => -n

/-- Division toward zero, where a quotient by zero is zero. -/
def quotientOf (l r : Int32) : Int32 := if r = 0 then 0 else l / r

/-- What division toward zero leaves, where a quotient by zero leaves zero. -/
def remainderOf (l r : Int32) : Int32 := if r = 0 then 0 else l % r

def BinaryOp.apply (rule : TruthRule) : BinaryOp → Int32 → Int32 → Int32
  | .or, l, r => (rule.holds l || rule.holds r).toInt32
  | .and, l, r => (rule.holds l && rule.holds r).toInt32
  | .equal, l, r => (l == r).toInt32
  | .unequal, l, r => (l != r).toInt32
  | .less, l, r => (decide (l < r)).toInt32
  | .lessEqual, l, r => (decide (l ≤ r)).toInt32
  | .greater, l, r => (decide (r < l)).toInt32
  | .greaterEqual, l, r => (decide (r ≤ l)).toInt32
  | .add, l, r => l + r
  | .subtract, l, r => l - r
  | .multiply, l, r => l * r
  | .divide, l, r => quotientOf l r
  | .remainder, l, r => remainderOf l r

/-- The value of a tree, where `value` gives the values of the names that have one. -/
def Expr.eval (rule : TruthRule) (value : String → Option Int32) : Expr → Int32
  | .number n => n
  | .bool b => b.toInt32
  | .var name => (value name).getD 0
  | .unary op operand => op.apply rule (operand.eval rule value)
  | .binary op left right => op.apply rule (left.eval rule value) (right.eval rule value)

end Criterion
