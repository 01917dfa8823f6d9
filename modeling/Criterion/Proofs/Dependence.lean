/-
# Criterion.Proofs.Dependence — a value depends on the inputs alone

A formula lists the names that it reads, and whoever supplies values relies on the list: two supplies
that agree on it give the formula the same value (`Formula.eval_inputs`). There are three ways to walk
a tree for its value, `eval`, `count` and `holds`, and each reads only what `names` lists; a name
without a value is read as the default.
-/
import Criterion.Evaluation.Boolean
import Criterion.Proofs.Parse
import Mathlib.Logic.Function.Basic

namespace Criterion

set_option autoImplicit false

/-- Both supplies have the same values for the names, where one that is missing is `default`. -/
def Agree {α : Type} (default : α) (names : List String) (value value' : String → Option α) :
    Prop :=
  ∀ name ∈ names, (value name).getD default = (value' name).getD default

section

variable {α : Type} {default : α} {value value' : String → Option α}

theorem agree_append {xs ys : List String} : Agree default (xs ++ ys) value value' ↔
    Agree default xs value value' ∧ Agree default ys value value' :=
  List.forall_mem_append

/-- A name that is not among them may get any value, or lose it. -/
theorem agree_update {name : String} {names : List String} (outside : name ∉ names)
    (bound : Option α) : Agree default names (Function.update value name bound) value := by
  intro other mem
  have ne : other ≠ name := fun same => outside (same ▸ mem)
  rw [Function.update_of_ne ne]

end

namespace Expr

theorem eval_congr (rule : TruthRule) {e : Expr} {value value' : String → Option Int32}
    (agree : Agree 0 e.names value value') : e.eval rule value = e.eval rule value' := by
  induction e with
  | number | bool => rfl
  | var name => exact agree name (.head _)
  | unary op operand ih => rw [eval, eval, ih agree]
  | binary op left right ih_left ih_right =>
      obtain ⟨on_left, on_right⟩ := agree_append.1 agree
      rw [eval, eval, ih_left on_left, ih_right on_right]

section

variable {e : Expr} {value value' : String → Option Bool}

theorem count_congr (agree : Agree false e.names value value') :
    e.count value = e.count value' := by
  induction e with
  | number | bool => rfl
  | var name => rw [count, count, agree name (.head _)]
  | unary op operand ih => rw [count, count, ih agree]
  | binary op left right ih_left ih_right =>
      obtain ⟨on_left, on_right⟩ := agree_append.1 agree
      rw [count, count, ih_left on_left, ih_right on_right]

theorem holds_congr (agree : Agree false e.names value value') :
    e.holds value = e.holds value' := by
  induction e with
  | number | bool => rfl
  | var name => exact agree name (.head _)
  | unary op operand ih =>
      have counted := count_congr agree
      cases op with
      | not => rw [holds, holds, ih agree]
      | complement | negate => simp only [holds, counted]
  | binary op left right ih_left ih_right =>
      have counted := count_congr agree
      obtain ⟨on_left, on_right⟩ := agree_append.1 agree
      cases op with
      | or | and | equal | unequal => simp only [holds, ih_left on_left, ih_right on_right]
      | _ => simp only [holds, counted]

end

end Expr

namespace Formula

/-- Two supplies that agree on the inputs of a formula give it the same value, as an integer under
either rule and as a truth value. No other name matters, whatever its value and whether it has
one. -/
theorem eval_inputs (f : Formula) :
    (∀ (rule : TruthRule) (value value' : String → Option Int32),
      Agree 0 f.inputs value value' → f.root.eval rule value = f.root.eval rule value') ∧
    (∀ value value' : String → Option Bool,
      Agree false f.inputs value value' → f.root.holds value = f.root.holds value') ∧
    ∀ name, name ∉ f.inputs →
      (∀ (rule : TruthRule) (value : String → Option Int32) (bound : Option Int32),
        f.root.eval rule (Function.update value name bound) = f.root.eval rule value) ∧
      ∀ (value : String → Option Bool) (bound : Option Bool),
        f.root.holds (Function.update value name bound) = f.root.holds value := by
  have integers (rule : TruthRule) (value value' : String → Option Int32)
      (agree : Agree 0 f.inputs value value') : f.root.eval rule value = f.root.eval rule value' :=
    Expr.eval_congr rule fun name mem => agree name (Expr.mem_inputs.2 mem)
  have truths (value value' : String → Option Bool) (agree : Agree false f.inputs value value') :
      f.root.holds value = f.root.holds value' :=
    Expr.holds_congr fun name mem => agree name (Expr.mem_inputs.2 mem)
  refine ⟨integers, truths, fun name outside => ⟨fun rule value bound => ?_, fun value bound => ?_⟩⟩
  · exact integers rule _ value (agree_update outside bound)
  · exact truths _ value (agree_update outside bound)

/-- A supply with nothing for `b` and a value for `c` agrees with one that has zero for `b` and
nothing for `c`. -/
theorem eval_inputs_default :
    ∃ f, compile .arithmetic .standard "a - b" = .ok f ∧
      f.root.eval .positive (fun name => ([("a", 5), ("c", 1)] : List _).lookup name) =
        f.root.eval .positive (fun name => ([("a", 5), ("b", 0)] : List _).lookup name) := by
  have compiled : compile .arithmetic .standard "a - b" =
      .ok ⟨"a - b", .binary .subtract (.var "a") (.var "b")⟩ :=
    eq_ok_of_toOption (by decide +kernel)
  obtain ⟨integers, _, _⟩ := eval_inputs ⟨"a - b", .binary .subtract (.var "a") (.var "b")⟩
  refine ⟨_, compiled, integers _ _ _ ?_⟩
  intro name mem
  have known : name = "a" ∨ name = "b" := by
    have names := Expr.mem_inputs.1 mem
    simpa [Expr.names] using names
  rcases known with rfl | rfl <;> decide

end Formula

end Criterion
