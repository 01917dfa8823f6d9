/-
# Criterion.Tier — what a formula is for

A formula is used as a condition, an integer or a proposition. Its tier settles the grammar that it
is read by, the values that its names take and the way it is evaluated. Conditions and integers
share a grammar and differ in what they take for true; a proposition knows truth values alone.
-/
import Criterion.Evaluation.Boolean
import Criterion.Formula

namespace Criterion

set_option autoImplicit false

inductive Tier where
  /-- Integers, of which those above zero are true. -/
  | condition
  /-- Integers, of which all but zero are true. -/
  | integer
  /-- Truth values. -/
  | boolean
deriving DecidableEq, Repr

namespace Tier

def name : Tier → String
  | condition => "condition"
  | integer => "integer"
  | boolean => "boolean"

def ofName? (s : String) : Option Tier := [condition, integer, boolean].find? (·.name == s)

def grammar : Tier → Grammar
  | condition | integer => .arithmetic
  | boolean => .boolean

/-- The values of a tier's formulas and of the names in them. -/
def Value : Tier → Type
  | condition | integer => Int32
  | boolean => Bool

/-- The value of a tree at a tier, where `value` gives the values of the names that have one. -/
def eval : (t : Tier) → (String → Option t.Value) → Expr → t.Value
  | condition, value, e => e.eval .positive value
  | integer, value, e => e.eval .nonzero value
  | boolean, value, e => e.holds value

/-- Whether a value counts as true at its tier. -/
def isTrue : (t : Tier) → t.Value → Bool
  | condition, n => TruthRule.positive.holds n
  | integer, n => TruthRule.nonzero.holds n
  | boolean, b => b

/-! ## Text of values -/

def readBool (cs : List Char) : Option Bool :=
  if cs = "true".toList then some true
  else if cs = "false".toList then some false
  else none

/-- A written integer; a truth value stands for 1 or 0. -/
def readInteger (cs : List Char) : Option Int32 :=
  match readBool cs with
  | some b => some b.toInt32
  | none => Decimal.read cs

def read : (t : Tier) → List Char → Option t.Value
  | condition, cs | integer, cs => readInteger cs
  | boolean, cs => readBool cs

def write : (t : Tier) → t.Value → List Char
  | condition, n | integer, n => Decimal.write n
  | boolean, b => (Expr.bool b).chars

/-- Values at every tier are read back as they are written. -/
theorem read_write (t : Tier) (v : t.Value) : t.read (t.write v) = some v := by
  have integer_case (n : Int32) : readInteger (Decimal.write n) = some n := by
    have number := Decimal.read_write n
    unfold readInteger readBool
    split
    · next b eq =>
      split at eq
      · next text => rw [text] at number; cases number
      · split at eq
        · next text => rw [text] at number; cases number
        · cases eq
    · exact number
  cases t with
  | condition => exact integer_case v
  | integer => exact integer_case v
  | boolean => cases v <;> rfl

end Tier

end Criterion
