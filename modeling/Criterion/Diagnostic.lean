/-
# Criterion.Diagnostic — what can be wrong with a text, and where

A text is at fault in its letters (`LexicalFault`: some characters form no token) or in its grammar
(`GrammarFault`: the tokens form no expression). Either way a `Diagnostic` names one cause and the
place of it, counted in characters from the start of the text; two causes name a second place. A
fault keeps the offending words as they are written, so that `message` can quote them.
-/

namespace Criterion

set_option autoImplicit false

/-! ## Letters -/

inductive LexicalFault where
  /-- Half of an operator that is written with two equal characters. -/
  | halved (c : Char) (index : Nat)
  /-- A character that starts no token. -/
  | strange (c : Char) (index : Nat)
  /-- A name that ends in punctuation; the place is that of the punctuation. -/
  | openName (name : String) (index : Nat)
  /-- A number that runs into a name. -/
  | mergedNumber (digits : String) (index : Nat)
  /-- A number that 32 bits cannot hold. -/
  | hugeNumber (digits : String) (index : Nat)
deriving DecidableEq, Repr

namespace LexicalFault

/-- The fault of a character that starts no token. -/
def ofChar (c : Char) (index : Nat) : LexicalFault :=
  if c = '&' ∨ c = '|' ∨ c = '=' then .halved c index else .strange c index

def index : LexicalFault → Nat
  | halved _ i | strange _ i | openName _ i | mergedNumber _ i | hugeNumber _ i => i

def message : LexicalFault → String
  | halved c i => s!"Unexpected character '{c}' at index {i} - should it be '{c}{c}'?"
  | strange c i => s!"Invalid character '{c}' at index {i}"
  | openName name i => s!"Invalid identifier end character at index {i} for '{name}'"
  | mergedNumber digits i => s!"Number {digits} and variable merged at index {i}"
  | hugeNumber digits i => s!"Number {digits} is out of range at index {i}"

end LexicalFault

/-! ## Grammar -/

inductive GrammarFault where
  /-- No token at all. -/
  | empty
  /-- A binary operator that touches what precedes it; the place is its end. -/
  | crampedBefore (op : String) (index : Nat)
  /-- A binary operator that touches what follows it; the place is its end. -/
  | crampedAfter (op : String) (index : Nat)
  /-- Two operands side by side: the second, its place and the place of the first. -/
  | missingOperator (token : String) (index previous : Nat)
  /-- Two operators side by side, each waiting for an operand from the other. -/
  | missingOperand (first : String) (firstIndex : Nat) (second : String) (secondIndex : Nat)
  /-- The last operator lacks its right operand; the place is the end of the text. -/
  | openEnd (op : String) (index : Nat)
  /-- The first operator lacks its left operand. -/
  | openStart (op : String) (index : Nat)
  /-- A parenthesis closed as soon as it was opened. -/
  | emptyParenthesis (index : Nat)
  /-- The innermost parenthesis that is never closed. -/
  | unclosed (index : Nat)
  /-- A closing parenthesis that was never opened. -/
  | unmatched (index : Nat)
  /-- A number where only truth values are allowed. -/
  | foreignNumber (digits : String) (index : Nat)
  /-- An operator on numbers where only truth values are allowed. -/
  | foreignOperator (op : String) (index : Nat)
  /-- The first operator or parenthesis beyond the limit. -/
  | tooLong (limit index : Nat)
  /-- The first token nested beyond the limit. -/
  | tooDeep (limit index : Nat)
  /-- A token in a place where no other rule admits one. -/
  | unexpected (token : String) (index : Nat)
deriving DecidableEq, Repr

namespace GrammarFault

def index : GrammarFault → Nat
  | empty => 0
  | crampedBefore _ i | crampedAfter _ i | missingOperator _ i _ | missingOperand _ i _ _
  | openEnd _ i | openStart _ i | emptyParenthesis i | unclosed i | unmatched i
  | foreignNumber _ i | foreignOperator _ i | tooLong _ i | tooDeep _ i | unexpected _ i => i

def secondIndex : GrammarFault → Option Nat
  | missingOperator _ _ previous => some previous
  | missingOperand _ _ _ second => some second
  | _ => none

def message : GrammarFault → String
  | empty => "Empty expression"
  | crampedBefore op i => s!"Missing whitespace at index {i}, before '{op}' operator."
  | crampedAfter op i => s!"Missing whitespace at index {i}, after '{op}' operator."
  | missingOperator token i _ => s!"Missing binary operation before '{token}' at index {i}"
  | missingOperand first i second j =>
      "Missing value or sub-expression or there is an extra operator " ++
        s!"'{first}' at index {i} or '{second}' at index {j}"
  | openEnd op _ => s!"Missing value or sub-expression at end for '{op}' operator"
  | openStart op _ => s!"Missing value or sub-expression at beginning for '{op}' operator"
  | emptyParenthesis i => s!"Empty parenthesis at index {i}"
  | unclosed i => s!"Unclosed opening parenthesis at index {i}"
  | unmatched i => s!"Unmatched closing parenthesis at index {i}"
  | foreignNumber digits i =>
      s!"Number '{digits}' at index {i} is not supported in a boolean expression"
  | foreignOperator op i =>
      s!"Operator '{op}' at index {i} is not supported in a boolean expression"
  | tooLong limit i => s!"Expression is too long at index {i}: more than {limit} operators"
  | tooDeep limit i => s!"Expression is nested too deeply at index {i}: more than {limit} levels"
  | unexpected token i => s!"Unexpected token '{token}' at index {i}"

end GrammarFault

/-! ## Either -/

inductive Diagnostic where
  | lexical (fault : LexicalFault)
  | grammar (fault : GrammarFault)
deriving DecidableEq, Repr

namespace Diagnostic

/-- The place of the cause. -/
def index : Diagnostic → Nat
  | lexical fault => fault.index
  | grammar fault => fault.index

/-- The other place of a cause that has two. -/
def secondIndex : Diagnostic → Option Nat
  | lexical _ => none
  | grammar fault => fault.secondIndex

def message : Diagnostic → String
  | lexical fault => fault.message
  | grammar fault => fault.message

instance : ToString Diagnostic := ⟨message⟩

end Diagnostic

theorem LexicalFault.index_ofChar (c : Char) (i : Nat) : (LexicalFault.ofChar c i).index = i := by
  unfold LexicalFault.ofChar
  split <;> rfl

end Criterion
