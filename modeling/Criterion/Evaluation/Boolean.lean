/-
# Criterion.Evaluation.Boolean — the truth value of a tree

A tree of names, truth values and logical operators is evaluated without integers, so no rule says
which integers are true; a name without a value is false. A tree that holds numbers or arithmetic
has a truth value too: where such an operation stands, its operands are counted (`count`), with 1
for true and 0 for false, and any result but zero is true.
-/
import Criterion.Evaluation

namespace Criterion.Expr

set_option autoImplicit false

/-- The integer reading of a tree on truth values. -/
def count (value : String → Option Bool) : Expr → Int32
  | .number n => n
  | .bool b => b.toInt32
  | .var name => ((value name).getD false).toInt32
  | .unary op operand => op.apply .nonzero (operand.count value)
  | .binary op left right => op.apply .nonzero (left.count value) (right.count value)

/-- The truth value of a tree, where `value` gives the truth values of the names that have one. -/
def holds (value : String → Option Bool) : Expr → Bool
  | .bool b => b
  | .var name => (value name).getD false
  | .unary .not operand => !operand.holds value
  | .binary .or left right => left.holds value || right.holds value
  | .binary .and left right => left.holds value && right.holds value
  | .binary .equal left right => left.holds value == right.holds value
  | .binary .unequal left right => left.holds value != right.holds value
  | e => e.count value != 0

end Criterion.Expr
