/-
# Criterion.Expr.Postfix — trees from postfix notation

A tree can be given as a list of steps in which an operator follows its operands. `build?` runs the
steps on a stack and answers the tree if exactly one is left; `steps` lists the steps of a tree, and
`build?_steps` says that building them gives the tree back.
-/
import Criterion.Expr

namespace Criterion.Expr

set_option autoImplicit false

inductive Step where
  | leaf (e : Expr)
  | unary (op : UnaryOp)
  | binary (op : BinaryOp)
deriving DecidableEq, Repr

/-- The stack after the steps; the top of the stack is its head. -/
def run : List Step → List Expr → Option (List Expr)
  | [], stack => some stack
  | .leaf e :: rest, stack => run rest (e :: stack)
  | .unary op :: rest, operand :: stack => run rest (.unary op operand :: stack)
  | .binary op :: rest, right :: left :: stack => run rest (.binary op left right :: stack)
  | _ :: _, _ => none

def build? (steps : List Step) : Option Expr :=
  match run steps [] with
  | some [e] => some e
  | _ => none

def steps : Expr → List Step
  | .unary op operand => operand.steps ++ [.unary op]
  | .binary op left right => left.steps ++ right.steps ++ [.binary op]
  | e => [.leaf e]

theorem run_steps (e : Expr) (rest : List Step) (stack : List Expr) :
    run (e.steps ++ rest) stack = run rest (e :: stack) := by
  induction e generalizing rest stack with
  | number | bool | var => rfl
  | unary op operand ih => simp [steps, ih, run]
  | binary op left right ih_left ih_right => simp [steps, ih_left, ih_right, run]

theorem build?_steps (e : Expr) : build? e.steps = some e := by
  have h := run_steps e [] []
  rw [List.append_nil] at h
  rw [build?, h]
  rfl

end Criterion.Expr
