/-
# Criterion.Proofs.Depth — the depth of a place, read back from it

What a place is nested in can be read off the tokens before it, last one first. A parenthesis that
has been closed again is passed over with all it holds; one that has not is counted, and so is each
prefix operator directly before it or directly before the place itself. `unclosed` and `pending`
count them, and `depthBehind` is their sum.

A `Nesting` keeps the same numbers going forward, as a stack and two counters. `Tracks` says that it
agrees with what is read back, from wherever reading starts, and `Tracks.step` that every token
keeps it so. A closing parenthesis is the one token that leaves the run of prefix operators alone,
so it must not stand directly behind one.
-/
import Criterion.Nesting

namespace Criterion

set_option autoImplicit false

/-! ## Reading back -/

/-- The parentheses before a place that are not closed, where the first `closed` of them are closed
behind what is read. -/
def unclosedBack : Nat → List Role → Nat
  | _, [] => 0
  | closed, .closing :: rest => unclosedBack (closed + 1) rest
  | 0, .opening :: rest => unclosedBack 0 rest + 1
  | closed + 1, .opening :: rest => unclosedBack closed rest
  | closed, .value :: rest => unclosedBack closed rest
  | closed, .unary _ :: rest => unclosedBack closed rest
  | closed, .binary _ :: rest => unclosedBack closed rest

/-- The prefix operators before a place whose operand has not come; `direct` tells whether those
read next are among them. -/
def pendingBack : Nat → Bool → List Role → Nat
  | _, _, [] => 0
  | closed, _, .closing :: rest => pendingBack (closed + 1) false rest
  | 0, _, .opening :: rest => pendingBack 0 true rest
  | closed + 1, _, .opening :: rest => pendingBack closed false rest
  | closed, true, .unary _ :: rest => pendingBack closed true rest + 1
  | closed, false, .unary _ :: rest => pendingBack closed false rest
  | closed, _, .value :: rest => pendingBack closed false rest
  | closed, _, .binary _ :: rest => pendingBack closed false rest

/-- The parentheses that tokens of these roles leave open. -/
def unclosed (roles : List Role) : Nat := unclosedBack 0 roles.reverse

/-- The prefix operators that still wait behind tokens of these roles. -/
def pending (roles : List Role) : Nat := pendingBack 0 true roles.reverse

/-- How deep the place behind tokens of these roles is. -/
def depthBehind (roles : List Role) : Nat := unclosed roles + pending roles

/-! ## The stack and the counters -/

namespace Nesting

/-- The nesting is that of the place behind `back`, where the last token comes first. -/
structure Tracks (n : Nesting) (back : List Role) : Prop where
  opened : ∀ closed, unclosedBack closed back = (n.enclosures.drop closed).length
  kept : ∀ closed, pendingBack closed false back = remembered (n.enclosures.drop closed)
  ahead : pendingBack 0 true back = remembered n.enclosures + n.waiting
  balanced : n.Balanced

theorem outermost_tracks : outermost.Tracks [] where
  opened closed := by simp [unclosedBack, outermost]
  kept closed := by simp [pendingBack, outermost, remembered]
  ahead := rfl
  balanced := outermost_balanced

theorem Tracks.depth_eq {n : Nesting} {roles : List Role} (h : n.Tracks roles.reverse) :
    n.depth = depthBehind roles := by
  have stack := h.opened 0
  have counters : n.outer = remembered n.enclosures := h.balanced
  rw [depthBehind, unclosed, pending, h.ahead, stack, depth, counters, List.drop_zero]
  omega

theorem Tracks.unclosed_eq {n : Nesting} {roles : List Role} (h : n.Tracks roles.reverse) :
    n.enclosures.length = unclosed roles :=
  (h.opened 0).symm

/-- A token keeps the nesting that of the place behind it. -/
theorem Tracks.step {n next : Nesting} {index : Nat} {role : Role} {back : List Role}
    (h : n.Tracks back) (eq : n.step index role = some next)
    (settled : role = .closing → n.waiting = 0) : next.Tracks (role :: back) := by
  have balanced := h.balanced.step eq
  cases role with
  | value =>
      cases eq
      exact ⟨h.opened, h.kept, by simpa [pendingBack] using h.kept 0, balanced⟩
  | binary op =>
      cases eq
      exact ⟨h.opened, h.kept, by simpa [pendingBack] using h.kept 0, balanced⟩
  | unary op =>
      cases eq
      refine ⟨h.opened, h.kept, ?_, balanced⟩
      rw [pendingBack, h.ahead, Nat.add_assoc]
  | opening =>
      cases eq
      refine ⟨?_, ?_, ?_, balanced⟩
      · intro closed
        cases closed with
        | zero => rw [unclosedBack, h.opened 0]; rfl
        | succ closed => rw [unclosedBack, h.opened closed]; rfl
      · intro closed
        cases closed with
        | zero => rw [pendingBack, h.ahead, Nat.add_comm]; rfl
        | succ closed => rw [pendingBack, h.kept closed]; rfl
      · rw [pendingBack, h.ahead, Nat.add_comm]; rfl
  | closing =>
      have run := settled rfl
      obtain ⟨enclosures, outer, waiting⟩ := n
      cases enclosures with
      | nil => cases eq
      | cons enclosure rest =>
          cases eq
          refine ⟨?_, ?_, ?_, balanced⟩
          · intro closed
            exact h.opened (closed + 1)
          · intro closed
            exact h.kept (closed + 1)
          · rw [pendingBack, h.kept 1]
            simp only at run
            rw [run]
            rfl

end Nesting

end Criterion
