/-
# Criterion.Operator — the operators of the expression language

`UnaryOp` and `BinaryOp` are what an operator means in a tree; `Sign` is what stands in the text.
The two differ because `-` is written for both negation and subtraction, and its place decides
which. A binary operator of higher precedence binds tighter, and all of them group to the left.
-/

namespace Criterion

set_option autoImplicit false

/-! ## Operators of a tree -/

inductive UnaryOp where
  | not
  | complement
  | negate
deriving DecidableEq, Repr

inductive BinaryOp where
  | or
  | and
  | equal
  | unequal
  | less
  | lessEqual
  | greater
  | greaterEqual
  | add
  | subtract
  | multiply
  | divide
  | remainder
deriving DecidableEq, Repr

namespace UnaryOp

def all : List UnaryOp := [.not, .complement, .negate]

def text : UnaryOp → String
  | .not => "!"
  | .complement => "~"
  | .negate => "-"

/-- A prefix operator binds tighter than every binary one. -/
def precedence : Nat := 16

def ofText? (s : String) : Option UnaryOp := all.find? (·.text == s)

theorem mem_all (op : UnaryOp) : op ∈ all := by cases op <;> decide

theorem ofText?_text (op : UnaryOp) : ofText? op.text = some op := by cases op <;> rfl

theorem eq_of_text_eq {op op' : UnaryOp} (h : op.text = op'.text) : op = op' := by
  have same := congrArg ofText? h
  rwa [ofText?_text, ofText?_text, Option.some.injEq] at same

/-- A prefix operator is one character. -/
theorem length_text (op : UnaryOp) : op.text.toList.length = 1 := by cases op <;> rfl

instance : ToString UnaryOp := ⟨text⟩

end UnaryOp

namespace BinaryOp

def all : List BinaryOp :=
  [.or, .and, .equal, .unequal, .less, .lessEqual, .greater, .greaterEqual, .add, .subtract,
   .multiply, .divide, .remainder]

def text : BinaryOp → String
  | .or => "||"
  | .and => "&&"
  | .equal => "=="
  | .unequal => "!="
  | .less => "<"
  | .lessEqual => "<="
  | .greater => ">"
  | .greaterEqual => ">="
  | .add => "+"
  | .subtract => "-"
  | .multiply => "*"
  | .divide => "/"
  | .remainder => "%"

def precedence : BinaryOp → Nat
  | .or => 3
  | .and => 4
  | .equal | .unequal => 8
  | .less | .lessEqual | .greater | .greaterEqual => 9
  | .add | .subtract => 11
  | .multiply | .divide | .remainder => 12

/-- Operators that take truth values to truth values. -/
def isLogical : BinaryOp → Bool
  | .or | .and | .equal | .unequal => true
  | _ => false

def ofText? (s : String) : Option BinaryOp := all.find? (·.text == s)

theorem mem_all (op : BinaryOp) : op ∈ all := by cases op <;> decide

theorem ofText?_text (op : BinaryOp) : ofText? op.text = some op := by cases op <;> rfl

theorem eq_of_text_eq {op op' : BinaryOp} (h : op.text = op'.text) : op = op' := by
  have same := congrArg ofText? h
  rwa [ofText?_text, ofText?_text, Option.some.injEq] at same

theorem precedence_lt_unary (op : BinaryOp) : op.precedence < UnaryOp.precedence := by
  cases op <;> decide

instance : ToString BinaryOp := ⟨text⟩

end BinaryOp

/-! ## Operators of a text -/

/-- An operator as written. -/
inductive Sign where
  | bang
  | tilde
  | minus
  | plus
  | star
  | slash
  | percent
  | less
  | lessEqual
  | greater
  | greaterEqual
  | doubleEqual
  | bangEqual
  | doubleAmp
  | doubleBar
deriving DecidableEq, Repr

namespace Sign

def all : List Sign :=
  [.bang, .tilde, .minus, .plus, .star, .slash, .percent, .less, .lessEqual, .greater,
   .greaterEqual, .doubleEqual, .bangEqual, .doubleAmp, .doubleBar]

def text : Sign → String
  | .bang => "!"
  | .tilde => "~"
  | .minus => "-"
  | .plus => "+"
  | .star => "*"
  | .slash => "/"
  | .percent => "%"
  | .less => "<"
  | .lessEqual => "<="
  | .greater => ">"
  | .greaterEqual => ">="
  | .doubleEqual => "=="
  | .bangEqual => "!="
  | .doubleAmp => "&&"
  | .doubleBar => "||"

/-- The longest operator that a text beginning with `c` starts with. -/
def leading? : Char → List Char → Option Sign
  | '!', '=' :: _ => some .bangEqual
  | '<', '=' :: _ => some .lessEqual
  | '>', '=' :: _ => some .greaterEqual
  | '=', '=' :: _ => some .doubleEqual
  | '&', '&' :: _ => some .doubleAmp
  | '|', '|' :: _ => some .doubleBar
  | '!', _ => some .bang
  | '~', _ => some .tilde
  | '-', _ => some .minus
  | '+', _ => some .plus
  | '*', _ => some .star
  | '/', _ => some .slash
  | '%', _ => some .percent
  | '<', _ => some .less
  | '>', _ => some .greater
  | _, _ => none

theorem mem_all (sign : Sign) : sign ∈ all := by cases sign <;> decide

theorem leading?_text (sign : Sign) :
    ∃ c rest, sign.text.toList = c :: rest ∧ leading? c rest = some sign := by
  cases sign <;> exact ⟨_, _, rfl, rfl⟩

/-- The operator found is written at the start of the text. -/
theorem text_of_leading? {c : Char} {rest : List Char} {sign : Sign}
    (h : leading? c rest = some sign) : ∃ tail, c :: rest = sign.text.toList ++ tail := by
  unfold leading? at h
  split at h <;> cases h <;> exact ⟨_, rfl⟩

/-- An operator has two characters at most. -/
theorem leading?_cons (c d : Char) (xs ys : List Char) :
    leading? c (d :: xs) = leading? c (d :: ys) := by
  unfold leading?
  split <;> simp_all

instance : ToString Sign := ⟨text⟩

end Sign

end Criterion
