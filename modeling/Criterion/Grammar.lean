/-
# Criterion.Grammar — the rules between neighbouring tokens

Every rule of the grammar but two looks at a token and the one before it: a binary operator stands
between spaces, operands and operators alternate, and the boolean grammar knows no numbers and only
the logical operators. Each rule is a function that answers the fault it finds. The two others,
nesting and length, are counted in `Criterion.Nesting` and `Criterion.Admission`.
-/
import Criterion.Diagnostic
import Criterion.Role

namespace Criterion

set_option autoImplicit false

/-- Which tokens an expression may use. -/
inductive Grammar where
  /-- All of them. -/
  | arithmetic
  /-- Names, truth values, parentheses and the logical operators. -/
  | boolean
deriving DecidableEq, Repr

/-- The grammar where none is chosen. -/
def Grammar.standard : Grammar := .arithmetic

/-- A token in its role. -/
structure Item where
  role : Role
  token : Token
deriving DecidableEq, Repr

namespace Item

/-- The place of the token. -/
def index (item : Item) : Nat := item.token.start.chars

/-- A token that the grammar does not know. -/
def foreign (g : Grammar) (item : Item) : Option GrammarFault :=
  match g, item.token.word with
  | .arithmetic, _ => none
  | .boolean, .number _ => some (.foreignNumber item.token.text item.index)
  | .boolean, _ =>
      if item.role.isLogical then none else some (.foreignOperator item.role.text item.index)

/-- A binary operator without white space before it. -/
def crampedBefore (item : Item) : Option GrammarFault :=
  if item.role.isBinary && !item.token.spacedBefore then
    some (.crampedBefore item.role.text item.token.stop.chars)
  else none

/-- A binary operator without white space behind it. -/
def crampedAfter (item : Item) : Option GrammarFault :=
  if item.role.isBinary && !item.token.spacedAfter then
    some (.crampedAfter item.role.text item.token.stop.chars)
  else none

/-- An item that does not fit behind `previous`: of two neighbours exactly one takes the other. -/
def misplaced (previous : Option Item) (item : Item) : Option GrammarFault :=
  match previous with
  | none => if item.role.needsLeft then some (.openStart item.role.text item.index) else none
  | some before =>
      if before.role = .opening ∧ item.role = .closing then some (.emptyParenthesis before.index)
      else if before.role.needsRight = item.role.needsLeft then
        if before.role.needsRight then
          some (.missingOperand before.role.text before.index item.role.text item.index)
        else some (.missingOperator item.token.text item.index before.index)
      else none

end Item

end Criterion
