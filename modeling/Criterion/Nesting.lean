/-
# Criterion.Nesting — how deep a place is

A place lies inside the parentheses that are open there, and behind the prefix operators that still
wait for their operand: those directly before it, and those directly before each open parenthesis.
Together they are the depth of the place. A parenthesis remembers how many prefix operators stand
before it, so that closing it forgets them too.
-/
import Criterion.Role

namespace Criterion

set_option autoImplicit false

/-- An open parenthesis. -/
structure Enclosure where
  index : Nat
  /-- The prefix operators directly before it. -/
  waiting : Nat
deriving DecidableEq, Repr

structure Nesting where
  /-- The open parentheses, innermost first. -/
  enclosures : List Enclosure
  /-- The prefix operators before open parentheses. -/
  outer : Nat
  /-- The prefix operators directly before this place. -/
  waiting : Nat
deriving DecidableEq, Repr

namespace Nesting

def limit : Nat := 64

def outermost : Nesting := ⟨[], 0, 0⟩

def depth (n : Nesting) : Nat := n.enclosures.length + n.outer + n.waiting

/-- The nesting behind a token. Nothing can be closed that is not open. -/
def step (n : Nesting) (index : Nat) : Role → Option Nesting
  | .opening => some ⟨⟨index, n.waiting⟩ :: n.enclosures, n.outer + n.waiting, 0⟩
  | .closing =>
      match n.enclosures with
      | [] => none
      | enclosure :: rest =>
          some { n with enclosures := rest, outer := n.outer - enclosure.waiting }
  | .unary _ => some { n with waiting := n.waiting + 1 }
  | .value | .binary _ => some { n with waiting := 0 }

/-- The prefix operators that open parentheses remember. -/
def remembered : List Enclosure → Nat
  | [] => 0
  | enclosure :: rest => enclosure.waiting + remembered rest

/-- The counter `outer` agrees with what the parentheses remember. -/
def Balanced (n : Nesting) : Prop := n.outer = remembered n.enclosures

theorem outermost_balanced : outermost.Balanced := rfl

theorem Balanced.step {n next : Nesting} {index : Nat} {role : Role} (h : n.Balanced)
    (eq : n.step index role = some next) : next.Balanced := by
  unfold Balanced at *
  cases role with
  | opening =>
    cases eq
    simp only [remembered]
    omega
  | closing =>
    simp only [Nesting.step] at eq
    split at eq
    · cases eq
    · next enclosure rest enclosures =>
      cases eq
      simp only [enclosures, remembered] at h
      simp only
      omega
  | _ => cases eq; exact h

end Nesting

end Criterion
