/-
# Criterion.Token — tokens and their places

A token is a piece of the text with its meaning, its place and the white space around it. A place is
an `Offset`, counted both in bytes of UTF-8 and in characters, and `Offset.past` moves it over a
stretch of text.
-/
import Criterion.Expr

namespace Criterion

set_option autoImplicit false

/-- The length of a text in bytes of UTF-8. -/
def byteLength : List Char → Nat
  | [] => 0
  | c :: cs => c.utf8Size + byteLength cs

theorem byteLength_append (cs ds : List Char) :
    byteLength (cs ++ ds) = byteLength cs + byteLength ds := by
  induction cs with
  | nil => simp [byteLength]
  | cons c cs ih => simp [byteLength, ih, Nat.add_assoc]

/-- How much text lies before a place. -/
structure Offset where
  bytes : Nat
  chars : Nat
deriving DecidableEq, Repr

namespace Offset

def zero : Offset := ⟨0, 0⟩

/-- The place behind `cs`, where `cs` begins at `o`. -/
def past (o : Offset) (cs : List Char) : Offset :=
  ⟨o.bytes + byteLength cs, o.chars + cs.length⟩

@[simp] theorem past_nil (o : Offset) : o.past [] = o := rfl

theorem past_append (o : Offset) (cs ds : List Char) : o.past (cs ++ ds) = (o.past cs).past ds := by
  simp [past, byteLength_append, Nat.add_assoc]

end Offset

/-- What a token means on its own. -/
inductive Word where
  | number (value : Int32)
  | name (name : String)
  | bool (value : Bool)
  | sign (sign : Sign)
  | openParen
  | closeParen
deriving DecidableEq, Repr

/-- The tree of a word that is an operand by itself. -/
def Word.leaf? : Word → Option Expr
  | .number n => some (.number n)
  | .name text => some (.var text)
  | .bool b => some (.bool b)
  | .sign _ | .openParen | .closeParen => none

structure Token where
  word : Word
  /-- The token as written. -/
  text : String
  start : Offset
  stop : Offset
  /-- White space or the start of the text is directly before the token. -/
  spacedBefore : Bool
  /-- White space or the end of the text is directly behind the token. -/
  spacedAfter : Bool
deriving DecidableEq, Repr

end Criterion
