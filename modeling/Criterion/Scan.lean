/-
# Criterion.Scan — a text cut into tokens

A scan is the list of a text's tokens up to the first fault in its letters. White space separates
tokens and is otherwise skipped; each token records whether there is any directly before and behind
it, because the grammar asks for it around some operators.

`scanFrom` walks the text one character at a time and, behind the first character of a token, passes
over as many more as the token has; `scanFrom_skip` says that this is dropping them.
-/
import Criterion.Lexeme
import Criterion.Text.Blank

namespace Criterion

set_option autoImplicit false

structure Scan where
  tokens : List Token
  /-- What stopped the scan before the end of the text. -/
  fault : Option LexicalFault
deriving DecidableEq, Repr

namespace Scan

def cons (token : Token) (s : Scan) : Scan := { s with tokens := token :: s.tokens }

/-- The token of a lexeme that starts at `start` with `c`, in front of `behind`. -/
def place (start : Offset) (spaced : Bool) (c : Char) (l : Lexeme) (behind : List Char) :
    Token where
  word := l.word
  text := String.ofList (c :: l.tail)
  start := start
  stop := start.past (c :: l.tail)
  spacedBefore := spaced
  spacedAfter := behind.head?.all Text.isBlank

/-- Scans the text behind its next `skip` characters, which belong to the token before. `o` is the
place behind them, and `spaced` tells whether white space or nothing has just been passed. -/
def scanFrom (p : Punctuation) (o : Offset) (spaced : Bool) : Nat → List Char → Scan
  | _, [] => ⟨[], none⟩
  | skip + 1, _ :: rest => scanFrom p o spaced skip rest
  | 0, c :: rest =>
      if Text.isBlank c then scanFrom p (o.past [c]) true 0 rest
      else
        match Lexeme.read p o.chars c rest with
        | .error fault => ⟨[], some fault⟩
        | .ok l =>
            let token := place o spaced c l (rest.drop l.tail.length)
            (scanFrom p token.stop false l.tail.length rest).cons token

def ofText (p : Punctuation) (source : String) : Scan :=
  scanFrom p .zero true 0 source.toList

/-! ## Unfolding -/

variable (p : Punctuation) (o : Offset) (spaced : Bool)

theorem scanFrom_nil (skip : Nat) : scanFrom p o spaced skip [] = ⟨[], none⟩ := by
  cases skip <;> rfl

theorem scanFrom_skip (skip : Nat) (cs : List Char) :
    scanFrom p o spaced skip cs = scanFrom p o spaced 0 (cs.drop skip) := by
  induction skip generalizing cs with
  | zero => rfl
  | succ skip ih =>
    cases cs with
    | nil => rfl
    | cons c rest => exact ih rest

theorem scanFrom_blank {c : Char} (blank : Text.isBlank c = true) (rest : List Char) :
    scanFrom p o spaced 0 (c :: rest) = scanFrom p (o.past [c]) true 0 rest := by
  rw [scanFrom, if_pos blank]

theorem scanFrom_fault {c : Char} {rest : List Char} {fault : LexicalFault}
    (solid : Text.isBlank c = false) (h : Lexeme.read p o.chars c rest = .error fault) :
    scanFrom p o spaced 0 (c :: rest) = ⟨[], some fault⟩ := by
  rw [scanFrom, solid, if_neg (by decide), h]

theorem scanFrom_lexeme {c : Char} {rest : List Char} {l : Lexeme}
    (solid : Text.isBlank c = false) (h : Lexeme.read p o.chars c rest = .ok l) :
    scanFrom p o spaced 0 (c :: rest) =
      (scanFrom p (o.past (c :: l.tail)) false 0 (rest.drop l.tail.length)).cons
        (place o spaced c l (rest.drop l.tail.length)) := by
  rw [scanFrom, solid, if_neg (by decide), h]
  exact congrArg (cons _) (scanFrom_skip p _ false l.tail.length rest)

end Scan

end Criterion
