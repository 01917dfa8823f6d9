/-
# Criterion.Proofs.Counting — truth values of trees with numbers

The truth value of a tree is asked of the tree itself, and of the operands of every logical operator
whose truth value is asked for (`Expr.asked`). Everything below is counted, which is evaluation with
all integers but zero for true (`Expr.count_eq_eval`). So one could take the truth value of any tree
for that of its integer value, and nearly can: for a tree of logical operators alone it is.

The exception is a comparison by `==` or `!=`. Where its truth value is asked for it compares the
truth values of its operands, and where it is counted it compares integers. The two differ if its
operands are different and both true, as those of `2 == 1` are (`Expr.isBlurred`), and there alone
(`Expr.holds_iff_eval_ne_zero`).
-/
import Criterion.Proofs.Fragment

namespace Criterion

set_option autoImplicit false

/-- Truth values are equal as the integers are, unless both integers are true and they differ. -/
theorem TruthRule.beq_holds_iff {l r : Int32} :
    (nonzero.holds l == nonzero.holds r) = (l == r) ↔
      (l != 0 && r != 0 && l != r) = false := by
  show ((l != 0) == (r != 0)) = (l == r) ↔ _
  by_cases same : l = r
  · subst same
    simp
  · have either : (l != 0 || r != 0) = true := by
      by_cases zero : l = 0
      · have other : r ≠ 0 := fun eq => same (zero.trans eq.symm)
        simp [other]
      · simp [zero]
    rw [beq_false_of_ne same, bne_iff_ne.2 same]
    cases left : l != 0 <;> cases right : r != 0 <;> simp [left, right] at either ⊢

namespace Expr

/-! ## What is asked for -/

/-- Truth values as integers. -/
def counted (value : String → Option Bool) : String → Option Int32 :=
  fun name => (value name).map Bool.toInt32

/-- The trees in a tree whose truth value its own is made of, and the tree itself. -/
def asked : Expr → List Expr
  | unary op operand => unary op operand :: if op = .not then operand.asked else []
  | binary op left right =>
      binary op left right :: if op.isLogical then left.asked ++ right.asked else []
  | number n => [number n]
  | bool b => [bool b]
  | var name => [var name]

/-- A comparison of two different integers that are both true. -/
def isBlurred (value : String → Option Bool) : Expr → Bool
  | binary .equal l r | binary .unequal l r =>
      l.eval .nonzero (counted value) != 0 && r.eval .nonzero (counted value) != 0 &&
        l.eval .nonzero (counted value) != r.eval .nonzero (counted value)
  | _ => false

theorem self_mem_asked (e : Expr) : e ∈ e.asked := by
  cases e <;> exact .head _

/-- What is asked for the sake of something that is asked for is asked for. -/
theorem mem_asked_trans {s t e : Expr} (inner : s ∈ t.asked) (outer : t ∈ e.asked) :
    s ∈ e.asked := by
  induction e with
  | number | bool | var =>
      obtain rfl := List.mem_singleton.1 outer
      exact inner
  | unary op operand ih =>
      rcases List.mem_cons.1 outer with rfl | below
      · exact inner
      · refine .tail _ ?_
        split at below
        · next logical => rw [if_pos logical]; exact ih below
        · cases below
  | binary op left right ih_left ih_right =>
      rcases List.mem_cons.1 outer with rfl | below
      · exact inner
      · refine .tail _ ?_
        split at below
        · next logical =>
            rw [if_pos logical]
            rcases List.mem_append.1 below with first | second
            · exact List.mem_append_left _ (ih_left first)
            · exact List.mem_append_right _ (ih_right second)
        · cases below

section

variable {value : String → Option Bool}

/-! ## Counting -/

/-- To count is to evaluate with all integers but zero for true. -/
theorem count_eq_eval (e : Expr) : e.count value = e.eval .nonzero (counted value) := by
  induction e with
  | number | bool => rfl
  | var name =>
      simp only [count, eval, counted]
      cases value name <;> rfl
  | unary op operand ih => rw [count, eval, ih]
  | binary op left right ih_left ih_right => rw [count, eval, ih_left, ih_right]

/-- A tree has the truth value of its integer value if no comparison asked for is blurred. -/
theorem holds_eq_of_clear {e : Expr} (clear : ∀ s ∈ e.asked, s.isBlurred value = false) :
    e.holds value = TruthRule.nonzero.holds (e.eval .nonzero (counted value)) := by
  induction e with
  | number n => rfl
  | bool b => exact (TruthRule.holds_toInt32 _ b).symm
  | var name =>
      simp only [holds, eval, counted]
      cases value name with
      | none => rfl
      | some b => exact (TruthRule.holds_toInt32 _ b).symm
  | unary op operand ih =>
      cases op with
      | not =>
          have inner := ih fun s mem => clear s (.tail _ mem)
          rw [holds, inner, eval, UnaryOp.apply, TruthRule.holds_toInt32]
      | complement | negate => exact congrArg (· != 0) (count_eq_eval _)
  | binary op left right ih_left ih_right =>
      have here := clear _ (self_mem_asked _)
      cases op with
      | or | and =>
          have first := ih_left fun s mem => clear s (.tail _ (List.mem_append_left _ mem))
          have second := ih_right fun s mem => clear s (.tail _ (List.mem_append_right _ mem))
          rw [holds, first, second, eval, BinaryOp.apply, TruthRule.holds_toInt32]
      | equal | unequal =>
          have first := ih_left fun s mem => clear s (.tail _ (List.mem_append_left _ mem))
          have second := ih_right fun s mem => clear s (.tail _ (List.mem_append_right _ mem))
          have compared := TruthRule.beq_holds_iff.2 here
          simp only [holds, first, second, eval, BinaryOp.apply, TruthRule.holds_toInt32, bne,
            compared]
      | _ => exact congrArg (· != 0) (count_eq_eval _)

/-- A blurred comparison has not the truth value of its integer value, or an operand has not. -/
theorem not_isBlurred_of_holds_eq {e : Expr} (same : ∀ s ∈ e.asked,
    s.holds value = TruthRule.nonzero.holds (s.eval .nonzero (counted value))) :
    e.isBlurred value = false := by
  cases e with
  | number | bool | var | unary => rfl
  | binary op left right =>
      have here := same _ (self_mem_asked _)
      cases op with
      | equal | unequal =>
          have first := same left (.tail _ (List.mem_append_left _ left.self_mem_asked))
          have second := same right (.tail _ (List.mem_append_right _ right.self_mem_asked))
          apply TruthRule.beq_holds_iff.1
          simpa only [holds, first, second, eval, BinaryOp.apply, TruthRule.holds_toInt32, bne,
            Bool.not_inj_iff] using here
      | _ => rfl

/-- A tree is true if its integer value is not zero, provided that none of the comparisons asked for
is blurred. If one is, then somewhere among what is asked for a tree is true whose integer value is
zero, or the other way round. -/
theorem holds_iff_eval_ne_zero (e : Expr) (value : String → Option Bool) :
    ((∀ s ∈ e.asked, s.isBlurred value = false) →
      (e.holds value = true ↔ e.eval .nonzero (counted value) ≠ 0)) ∧
    ((∀ s ∈ e.asked, (s.holds value = true ↔ s.eval .nonzero (counted value) ≠ 0)) ↔
      ∀ s ∈ e.asked, s.isBlurred value = false) := by
  have truth (s : Expr) : (s.holds value = true ↔ s.eval .nonzero (counted value) ≠ 0) ↔
      s.holds value = TruthRule.nonzero.holds (s.eval .nonzero (counted value)) := by
    have nonzero : TruthRule.nonzero.holds (s.eval .nonzero (counted value)) = true ↔
        s.eval .nonzero (counted value) ≠ 0 := bne_iff_ne
    rw [← nonzero]
    exact Bool.eq_iff_iff.symm
  have same_of_clear (clear : ∀ s ∈ e.asked, s.isBlurred value = false) (s : Expr)
      (mem : s ∈ e.asked) : s.holds value = true ↔ s.eval .nonzero (counted value) ≠ 0 :=
    (truth s).2 (holds_eq_of_clear fun t inner => clear t (mem_asked_trans inner mem))
  refine ⟨fun clear => same_of_clear clear e e.self_mem_asked, fun same s mem => ?_, same_of_clear⟩
  exact not_isBlurred_of_holds_eq fun t inner => (truth t).1 (same t (mem_asked_trans inner mem))

/-- As truth values 2 and 1 are equal, as integers they are not. -/
theorem holds_ne_eval_two_one :
    ¬ ∀ (e : Expr) (value : String → Option Bool),
      e.holds value = true ↔ e.eval .nonzero (counted value) ≠ 0 := by
  intro same
  have zero := (same (binary .equal (number 2) (number 1)) fun _ => none).1 (by decide)
  exact zero (by decide)

/-- In `((a + 1) == 2) && -(2 == a)` the sum is equal to the literal, and the comparison of 2 with
1 stands under a negation, where it is counted and its truth value is not asked for. -/
theorem holds_iff_eval_ne_zero_sum :
    (binary .and (binary .equal (binary .add (var "a") (number 1)) (number 2))
        (unary .negate (binary .equal (number 2) (var "a")))).eval .nonzero
          (counted fun _ => some true) = 0 ∧
      (binary .and (binary .equal (binary .add (var "a") (number 1)) (number 2))
        (unary .negate (binary .equal (number 2) (var "a")))).holds
          (fun _ => some true) = false := by
  have clear : ∀ s ∈ (binary .and (binary .equal (binary .add (var "a") (number 1)) (number 2))
      (unary .negate (binary .equal (number 2) (var "a")))).asked,
      s.isBlurred (fun _ => some true) = false := by decide
  have zero : (binary .and (binary .equal (binary .add (var "a") (number 1)) (number 2))
      (unary .negate (binary .equal (number 2) (var "a")))).eval .nonzero
        (counted fun _ => some true) = 0 := by decide
  refine ⟨zero, Bool.eq_false_iff.2 fun true => ?_⟩
  exact ((holds_iff_eval_ne_zero _ _).1 clear).1 true zero

end

end Expr

end Criterion
