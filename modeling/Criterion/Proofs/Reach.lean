/-
# Criterion.Proofs.Reach — how deep an expression reaches

An expression leaves nothing open and nothing waiting: whoever reads back from behind it passes over
it (`Derives.readBack`), so the place behind it is no deeper than the one before. What makes a place
deeper is the parentheses and prefix operators in front of it, one each.

`Shallow limit before roles` says that no place among tokens of these roles is too deep, where others
stand before them; it is put together from the parts of an expression.
-/
import Criterion.Proofs.Depth
import Criterion.Proofs.Derivation

namespace Criterion

set_option autoImplicit false

/-! ## Reading back -/

theorem pendingBack_false_le (closed : Nat) (direct : Bool) (back : List Role) :
    pendingBack closed false back ≤ pendingBack closed direct back := by
  induction back generalizing closed with
  | nil => exact Nat.le_refl _
  | cons role rest ih =>
      cases role with
      | unary op =>
          cases direct with
          | false => exact Nat.le_refl _
          | true => exact Nat.le_trans (ih closed) (Nat.le_add_right _ 1)
      | opening => cases closed <;> exact Nat.le_refl _
      | value | binary | closing => exact Nat.le_refl _

/-- Reading back passes over an expression. -/
theorem Derives.readBack {roles : List Role} (h : Derives roles) (back : List Role) (closed : Nat) :
    unclosedBack closed (roles.reverse ++ back) = unclosedBack closed back ∧
      ∀ direct, pendingBack closed direct (roles.reverse ++ back) =
        pendingBack closed false back := by
  induction h generalizing back closed with
  | value => exact ⟨rfl, fun direct => by cases direct <;> rfl⟩
  | unary _ ih =>
      rw [List.reverse_cons, List.append_assoc, List.singleton_append]
      obtain ⟨open_same, waiting⟩ := ih (.unary _ :: back) closed
      exact ⟨open_same, waiting⟩
  | @binary op left right _ _ ih_left ih_right =>
      have split : (left ++ .binary op :: right).reverse ++ back =
          right.reverse ++ .binary op :: (left.reverse ++ back) := by simp
      obtain ⟨open_right, waiting_right⟩ := ih_right (.binary op :: (left.reverse ++ back)) closed
      obtain ⟨open_left, waiting_left⟩ := ih_left back closed
      rw [split]
      refine ⟨open_right.trans open_left, fun direct => ?_⟩
      exact (waiting_right direct).trans (waiting_left false)
  | @enclosed inner _ ih =>
      have split : (Role.opening :: inner ++ [Role.closing]).reverse ++ back =
          .closing :: (inner.reverse ++ .opening :: back) := by simp
      obtain ⟨open_inner, waiting_inner⟩ := ih (.opening :: back) (closed + 1)
      rw [split]
      exact ⟨open_inner, fun direct => waiting_inner false⟩

section

variable (before : List Role)

theorem depthBehind_opening : depthBehind (before ++ [.opening]) = depthBehind before + 1 := by
  rw [depthBehind, depthBehind, unclosed, pending, List.reverse_concat, unclosedBack, pendingBack]
  simp only [unclosed, pending]
  omega

theorem depthBehind_unary (op : UnaryOp) :
    depthBehind (before ++ [.unary op]) = depthBehind before + 1 := by
  rw [depthBehind, depthBehind, unclosed, pending, List.reverse_concat, unclosedBack, pendingBack]
  rfl

theorem depthBehind_binary_le (op : BinaryOp) :
    depthBehind (before ++ [.binary op]) ≤ depthBehind before := by
  rw [depthBehind, depthBehind, unclosed, pending, List.reverse_concat, unclosedBack, pendingBack]
  exact Nat.add_le_add_left (pendingBack_false_le 0 true _) _

/-- An expression leaves nothing open. -/
theorem Derives.depthBehind_le {roles : List Role} (h : Derives roles) :
    depthBehind (before ++ roles) ≤ depthBehind before := by
  obtain ⟨open_same, waiting⟩ := h.readBack before.reverse 0
  rw [depthBehind, depthBehind, unclosed, pending, List.reverse_append, open_same, waiting]
  exact Nat.add_le_add_left (pendingBack_false_le 0 true _) _

end

/-! ## Places in tokens -/

/-- No place in the tokens, or at an end of them, is deeper than `limit`. -/
def Shallow (limit : Nat) (before roles : List Role) : Prop :=
  ∀ more, more <+: roles → depthBehind (before ++ more) ≤ limit

section

variable {limit : Nat} {before xs ys : List Role}

theorem Shallow.here (h : Shallow limit before xs) : depthBehind before ≤ limit := by
  have room := h [] List.nil_prefix
  rwa [List.append_nil] at room

theorem shallow_append (first : Shallow limit before xs)
    (second : Shallow limit (before ++ xs) ys) : Shallow limit before (xs ++ ys) := by
  intro more le
  rcases List.prefix_or_prefix_of_prefix le (List.prefix_append xs ys) with inside | ⟨m, rfl⟩
  · exact first more inside
  · rw [← List.append_assoc]
    exact second m ((List.prefix_append_right_inj xs).1 le)

theorem shallow_singleton {role : Role} (here : depthBehind before ≤ limit)
    (behind : depthBehind (before ++ [role]) ≤ limit) : Shallow limit before [role] := by
  intro more le
  rcases List.prefix_concat_iff.1 (show more <+: [] ++ [role] from le) with rfl | le
  · exact behind
  · rw [List.prefix_nil.1 le, List.append_nil]
    exact here

/-- Parentheses make a place deeper by one, until they are closed. -/
theorem shallow_enclosed (whole : Derives xs) (inner : Shallow limit (before ++ [.opening]) xs) :
    Shallow limit before ([.opening] ++ xs ++ [.closing]) := by
  have enclosed : Derives ([.opening] ++ xs ++ [.closing]) := .enclosed whole
  have opened := inner.here
  have here : depthBehind before ≤ limit := by
    rw [depthBehind_opening] at opened
    omega
  intro more le
  rcases List.prefix_concat_iff.1 le with rfl | le
  · exact Nat.le_trans (enclosed.depthBehind_le before) here
  · exact shallow_append (shallow_singleton here opened) inner more le

end

end Criterion
