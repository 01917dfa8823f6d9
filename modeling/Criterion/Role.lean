/-
# Criterion.Role — what a token does where it stands

A token is an operand, an operator or a parenthesis. Only `-` depends on its place: at the start and
behind whatever still waits for an operand it negates, elsewhere it subtracts. A role says on which
sides the token needs an operand; a parenthesis counts as needing what it encloses.
-/
import Criterion.Token

namespace Criterion

set_option autoImplicit false

inductive Role where
  | value
  | unary (op : UnaryOp)
  | binary (op : BinaryOp)
  | opening
  | closing
deriving DecidableEq, Repr

namespace Role

/-- Whether an operand must stand directly to the left. -/
def needsLeft : Role → Bool
  | binary _ | closing => true
  | _ => false

/-- Whether an operand must stand directly to the right. -/
def needsRight : Role → Bool
  | unary _ | binary _ | opening => true
  | _ => false

def isBinary : Role → Bool
  | binary _ => true
  | _ => false

/-- Whether the token can stand among truth values. -/
def isLogical : Role → Bool
  | unary op => op = .not
  | binary op => op.isLogical
  | _ => true

/-- The operator or parenthesis; operands have no text of their own. -/
def text : Role → String
  | value => ""
  | unary op => op.text
  | binary op => op.text
  | opening => "("
  | closing => ")"

/-- The role of an operator, where `operandNext` says that an operand is due. -/
def ofSign (operandNext : Bool) : Sign → Role
  | .bang => unary .not
  | .tilde => unary .complement
  | .minus => if operandNext then unary .negate else binary .subtract
  | .plus => binary .add
  | .star => binary .multiply
  | .slash => binary .divide
  | .percent => binary .remainder
  | .less => binary .less
  | .lessEqual => binary .lessEqual
  | .greater => binary .greater
  | .greaterEqual => binary .greaterEqual
  | .doubleEqual => binary .equal
  | .bangEqual => binary .unequal
  | .doubleAmp => binary .and
  | .doubleBar => binary .or

/-- The role of a token behind a token of role `previous`. -/
def ofWord (previous : Option Role) : Word → Role
  | .number _ | .name _ | .bool _ => value
  | .sign sign => ofSign (previous.all needsRight) sign
  | .openParen => opening
  | .closeParen => closing

/-- An operator keeps its spelling in every role. -/
theorem text_ofSign (operandNext : Bool) (sign : Sign) :
    (ofSign operandNext sign).text = sign.text := by
  cases sign <;> cases operandNext <;> rfl

end Role

end Criterion
