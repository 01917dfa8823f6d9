/-
# Criterion.Expr — expression trees

A tree holds what evaluation needs and nothing of the text it came from: no positions and no
parentheses. `chars` writes a tree with every operation in parentheses of its own, so grouping never
has to be inferred. `names` lists the variables where they stand, left to right; `inputs` lists
each once, in ascending order (`inputs_pairwise`, `mem_inputs`).
-/
import Criterion.Decimal
import Criterion.Operator

namespace Criterion

set_option autoImplicit false

inductive Expr where
  | number (value : Int32)
  | bool (value : Bool)
  | var (name : String)
  | unary (op : UnaryOp) (operand : Expr)
  | binary (op : BinaryOp) (left right : Expr)
deriving DecidableEq, Repr

/-- `name` put in its place in an ascending list, where it may stand already. -/
def insertName (name : String) : List String → List String
  | [] => [name]
  | other :: rest =>
      if name < other then name :: other :: rest
      else if name = other then other :: rest
      else other :: insertName name rest

namespace Expr

/-! ## Text -/

def chars : Expr → List Char
  | number n => Decimal.write n
  | bool true => "true".toList
  | bool false => "false".toList
  | var name => name.toList
  | unary op operand => '(' :: op.text.toList ++ operand.chars ++ [')']
  | binary op left right =>
      '(' :: left.chars ++ ' ' :: op.text.toList ++ ' ' :: right.chars ++ [')']

def text (e : Expr) : String := String.ofList e.chars

instance : ToString Expr := ⟨text⟩

/-! ## Variables -/

/-- Every occurrence of a variable, left to right. -/
def names : Expr → List String
  | number _ | bool _ => []
  | var name => [name]
  | unary _ operand => operand.names
  | binary _ left right => left.names ++ right.names

def inputs (e : Expr) : List String := e.names.foldr insertName []

end Expr

theorem mem_insertName {name other : String} {names : List String} :
    other ∈ insertName name names ↔ other = name ∨ other ∈ names := by
  induction names with
  | nil => simp [insertName]
  | cons head rest ih =>
    unfold insertName
    split
    · simp
    · split
      · next eq => simp [eq]
      · simp [ih, or_left_comm]

theorem insertName_pairwise {name : String} {names : List String} (h : names.Pairwise (· < ·)) :
    (insertName name names).Pairwise (· < ·) := by
  induction names with
  | nil => simp [insertName]
  | cons head rest ih =>
    rw [List.pairwise_cons] at h
    unfold insertName
    split
    · next lt =>
      refine .cons (fun other mem => ?_) (.cons h.1 h.2)
      rcases List.mem_cons.1 mem with rfl | mem
      · exact lt
      · exact String.lt_trans lt (h.1 other mem)
    · next not_lt =>
      split
      · exact .cons h.1 h.2
      · next ne =>
        refine .cons (fun other mem => ?_) (ih h.2)
        rcases mem_insertName.1 mem with rfl | mem
        · exact Decidable.byContradiction fun not_gt =>
            ne (String.le_antisymm (String.not_lt.1 not_gt) (String.not_lt.1 not_lt))
        · exact h.1 other mem

namespace Expr

/-- The listed variables are those that occur. -/
theorem mem_inputs {e : Expr} {name : String} : name ∈ e.inputs ↔ name ∈ e.names := by
  unfold inputs
  induction e.names with
  | nil => simp
  | cons head rest ih => simp [mem_insertName, ih]

/-- The listed variables ascend, so none is listed twice. -/
theorem inputs_pairwise (e : Expr) : e.inputs.Pairwise (· < ·) := by
  unfold inputs
  induction e.names with
  | nil => simp
  | cons head rest ih => exact insertName_pairwise ih

end Expr

end Criterion
