/-
# Criterion.Proofs.Rules — where the rules of truth part

The two rules of truth differ on negative integers alone, and only `!`, `&&` and `||` ask for the
truth of an operand; these operands are the judged ones of a tree (`Expr.judged`). So as long as
none of them is negative both rules give the tree the same value (`Expr.eval_positive_eq_nonzero`):
the first operation to see a difference would have to judge a negative operand itself.

A condition and an integer of one text therefore have different values only if a negative integer is
judged in it, and are true differently only if one is judged or comes out (`Formula.rules_agree`).
-/
import Criterion.Proofs.Parse
import Criterion.Tier
import Mathlib.Tactic.ByContra

namespace Criterion

set_option autoImplicit false

/-! ## Operators that judge -/

/-- Whether the operator asks for the truth of its operand. -/
def UnaryOp.judges : UnaryOp → Bool
  | .not => true
  | .complement | .negate => false

/-- Whether the operator asks for the truth of its operands. -/
def BinaryOp.judges : BinaryOp → Bool
  | .or | .and => true
  | _ => false

theorem UnaryOp.apply_positive_eq_nonzero {op : UnaryOp} {n : Int32}
    (judged : op.judges = true → 0 ≤ n) : op.apply .positive n = op.apply .nonzero n := by
  cases op with
  | not =>
      have same := TruthRule.holds_positive_eq_nonzero (judged rfl)
      simp only [apply, same]
  | complement | negate => rfl

theorem BinaryOp.apply_positive_eq_nonzero {op : BinaryOp} {l r : Int32}
    (judged : op.judges = true → 0 ≤ l ∧ 0 ≤ r) :
    op.apply .positive l r = op.apply .nonzero l r := by
  cases op with
  | or | and =>
      obtain ⟨left, right⟩ := judged rfl
      have same_left := TruthRule.holds_positive_eq_nonzero left
      have same_right := TruthRule.holds_positive_eq_nonzero right
      simp only [apply, same_left, same_right]
  | _ => rfl

namespace Expr

/-! ## Judged operands -/

/-- The operands of `!`, `&&` and `||` in a tree. -/
def judged : Expr → List Expr
  | number _ | bool _ | var _ => []
  | unary op operand => (if op.judges then [operand] else []) ++ operand.judged
  | binary op left right =>
      (if op.judges then [left, right] else []) ++ (left.judged ++ right.judged)

section

variable {value : String → Option Int32}

/-- While no negative operand is judged, the rules give the same value. -/
theorem eval_positive_eq_nonzero {e : Expr} (natural : ∀ o ∈ e.judged, 0 ≤ o.eval .positive value) :
    e.eval .positive value = e.eval .nonzero value := by
  induction e with
  | number | bool | var => rfl
  | unary op operand ih =>
      rw [judged, List.forall_mem_append] at natural
      obtain ⟨here, inner⟩ := natural
      -- The operator sees one value under both rules, and judges it only if it is not negative.
      rw [eval, eval, ← ih inner]
      apply UnaryOp.apply_positive_eq_nonzero
      intro judges
      exact here operand (by simp [judges])
  | binary op left right ih_left ih_right =>
      rw [judged, List.forall_mem_append, List.forall_mem_append] at natural
      obtain ⟨here, first, second⟩ := natural
      rw [eval, eval, ← ih_left first, ← ih_right second]
      apply BinaryOp.apply_positive_eq_nonzero
      intro judges
      exact ⟨here left (by simp [judges]), here right (by simp [judges])⟩

/-- Where the rules give different values, a negative operand is judged. -/
theorem exists_judged_of_ne {e : Expr}
    (ne : e.eval .positive value ≠ e.eval .nonzero value) :
    ∃ o ∈ e.judged, o.eval .positive value < 0 := by
  by_contra none
  simp only [not_exists, not_and, Int32.not_lt] at none
  exact ne (eval_positive_eq_nonzero none)

end

end Expr

/-! ## One text -/

namespace Formula

/-- Both rules of truth give a tree one value if no negative operand is judged under the rule that
takes positive integers alone for true. So a condition and an integer of one text, which are one
formula, have different values only if a negative integer is judged, and of one value are true
differently only if it is negative itself. -/
theorem rules_agree (value : String → Option Int32) :
    (∀ e : Expr, (∀ o ∈ e.judged, 0 ≤ o.eval .positive value) →
      e.eval .positive value = e.eval .nonzero value) ∧
    ∀ p source f, compile Tier.condition.grammar p source = .ok f →
      compile Tier.integer.grammar p source = .ok f ∧
      ((Tier.condition.eval value f.root : Int32) ≠ Tier.integer.eval value f.root →
        ∃ o ∈ f.root.judged, o.eval .positive value < 0) ∧
      (Tier.condition.isTrue (Tier.condition.eval value f.root) ≠
          Tier.integer.isTrue (Tier.integer.eval value f.root) →
        (∃ o ∈ f.root.judged, o.eval .positive value < 0) ∨ f.root.eval .positive value < 0) := by
  refine ⟨fun e => Expr.eval_positive_eq_nonzero, fun p source f compiled => ?_⟩
  refine ⟨compiled, Expr.exists_judged_of_ne, fun differ => ?_⟩
  by_cases same : f.root.eval .positive value = f.root.eval .nonzero value
  · right
    by_contra natural
    rw [Int32.not_lt] at natural
    apply differ
    show TruthRule.positive.holds (f.root.eval .positive value) =
      TruthRule.nonzero.holds (f.root.eval .nonzero value)
    rw [← same, TruthRule.holds_positive_eq_nonzero natural]
  · exact .inl (Expr.exists_judged_of_ne same)

/-- A debt of -5 is not seen by `&&`, but one of 5 is negative there, and then only the integer is
true. -/
theorem rules_agree_debt :
    ∃ f, compile Tier.condition.grammar .standard "-debt && !paid" = .ok f ∧
      compile Tier.integer.grammar .standard "-debt && !paid" = .ok f ∧
      f.root.eval .positive (fun name => if name = "debt" then some (-5) else none) =
        f.root.eval .nonzero (fun name => if name = "debt" then some (-5) else none) ∧
      f.root.eval .positive (fun name => if name = "debt" then some 5 else none) = 0 ∧
      f.root.eval .nonzero (fun name => if name = "debt" then some 5 else none) = 1 ∧
      ∃ o ∈ f.root.judged,
        o.eval .positive (fun name => if name = "debt" then some 5 else none) < 0 := by
  have compiled : compile Tier.condition.grammar .standard "-debt && !paid" = .ok
      ⟨"-debt && !paid", .binary .and (.unary .negate (.var "debt")) (.unary .not (.var "paid"))⟩ :=
    eq_ok_of_toOption (by decide +kernel)
  obtain ⟨agree, _⟩ := rules_agree fun name => if name = "debt" then some (-5) else none
  obtain ⟨_, parts⟩ := rules_agree fun name => if name = "debt" then some 5 else none
  obtain ⟨as_integer, differ, _⟩ := parts _ _ _ compiled
  have negative := differ (show (0 : Int32) ≠ 1 by decide)
  exact ⟨_, compiled, as_integer, agree _ (by decide), by decide, by decide, negative⟩

end Formula

end Criterion
