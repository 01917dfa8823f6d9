/-
# Criterion.Proofs.Branches — how far the leaves of a tree are from its root

The limits on a text are on its tokens; here is what they come to for its tree. The tree has no more
operations than the text has operators and parentheses (`Layered.operations_le`). The way from the
root to a leaf (`Expr.branches`) passes the prefix operators that wait where the leaf stands, and
each of them counts there, as does each parenthesis that is open. Binary operators do not count, but
what stands to the right of one is of a tighter layer, so without a parenthesis no way turns to the
right more than six times. `Layered.narrow` adds this up over the parentheses around a leaf.
-/
import Criterion.Proofs.Descent
import Criterion.Proofs.Printing

namespace Criterion

set_option autoImplicit false

/-! ## Ways down a tree -/

/-- How a way down a tree goes on from an operation. -/
inductive Turn where
  /-- From a prefix operator to its operand. -/
  | down
  /-- From a binary operator to its left operand. -/
  | left
  /-- From a binary operator to its right operand. -/
  | right
deriving DecidableEq, Repr

namespace Expr

/-- The ways from the root to the leaves, from left to right. -/
def branches : Expr → List (List Turn)
  | unary _ operand => operand.branches.map (.down :: ·)
  | binary _ left right => left.branches.map (.left :: ·) ++ right.branches.map (.right :: ·)
  | number _ | bool _ | var _ => [[]]

/-- A branch turns once at each operation on it. -/
theorem length_le_operations {e : Expr} {branch : List Turn} (mem : branch ∈ e.branches) :
    branch.length ≤ e.operations := by
  induction e generalizing branch with
  | number | bool | var =>
      rw [List.mem_singleton.1 mem]
      exact Nat.le_refl 0
  | unary op operand ih =>
      obtain ⟨behind, inside, rfl⟩ := List.mem_map.1 mem
      exact Nat.succ_le_succ (ih inside)
  | binary op left right ih_left ih_right =>
      rw [operations]
      rcases List.mem_append.1 mem with mem | mem
      · obtain ⟨behind, inside, rfl⟩ := List.mem_map.1 mem
        have le := ih_left inside
        rw [List.length_cons]
        omega
      · obtain ⟨behind, inside, rfl⟩ := List.mem_map.1 mem
        have le := ih_right inside
        rw [List.length_cons]
        omega

end Expr

/-! ## Tokens and operations -/

/-- Every operation of a tree has a token of its own, which is no operand. -/
theorem Layered.operations_le {k : Nat} {items : List Item} {e : Expr} (h : Layered k items e) :
    e.operations ≤ (items.map Item.role).countP (· ≠ .value) := by
  have counts (role : Role) (roles : List Role) (operator : role ≠ .value) :
      (role :: roles).countP (· ≠ .value) = roles.countP (· ≠ .value) + 1 := by
    simp [operator]
  induction h with
  | @operation k op item ls rs l r layer role left right ih_left ih_right =>
      rw [Expr.operations, List.map_append, List.map_cons, role, List.countP_append,
        counts _ _ (by simp)]
      omega
  | tighter _ _ ih => exact ih
  | @unary op item items e role inner ih =>
      rw [Expr.operations, List.map_cons, role, counts _ _ (by simp)]
      exact Nat.succ_le_succ ih
  | @leaf item e role word =>
      rcases Word.leaf_cases word with ⟨_, rfl⟩ | ⟨_, rfl⟩ | ⟨_, rfl⟩ <;> exact Nat.zero_le _
  | @enclosed opener closer items e opening closing inner ih =>
      rw [List.map_append, List.map_cons, opening, List.countP_append, counts _ _ (by simp)]
      omega

/-! ## The way to a leaf -/

/-- A branch below a place of layer `k` and the given depth: what is on it does not exceed the
limit, where each level of parentheses on the way gives room for six turns to the right. -/
def Narrow (k depth : Nat) (branch : List Turn) : Prop :=
  ∃ levels, depth + branch.count .down + levels ≤ 64 ∧
    branch.count .right ≤ 6 * levels + (6 - k)

/-- Where no place is too deep, every branch is narrow. No prefix operator waits directly before an
expression of the layer of a binary operator, so its level is as deep as its place. -/
theorem Layered.narrow {k : Nat} {items : List Item} {e : Expr} (h : Layered k items e)
    {before : List Role} (level : k < 6 → levelBehind before = depthBehind before)
    (shallow : Shallow 64 before (items.map Item.role)) :
    ∀ branch ∈ e.branches, Narrow k (depthBehind before) branch := by
  induction h generalizing before with
  | @operation k op item ls rs l r layer role left right ih_left ih_right =>
      have bound := op.layer_lt
      have level := level (by omega)
      rw [List.map_append, List.map_cons, role] at shallow
      intro branch mem
      rcases List.mem_append.1 mem with mem | mem
      · obtain ⟨behind, inside, rfl⟩ := List.mem_map.1 mem
        exact ih_left (fun _ => level) shallow.front behind inside
      · -- A turn to the right costs a layer and no depth: the place behind the operator is on the
        -- level of the left operand, whatever waits before that.
        obtain ⟨behind, inside, rfl⟩ := List.mem_map.1 mem
        rw [← List.singleton_append, ← List.append_assoc] at shallow
        have same := left.derives.levelBehind_binary before op
        have settled := levelBehind_eq_depthBehind (before ++ ls.map Item.role) op
        rw [List.append_assoc] at settled
        obtain ⟨levels, room, rights⟩ := ih_right (fun _ => settled) shallow.behind behind inside
        rw [← settled, same, level] at room
        refine ⟨levels, room, ?_⟩
        rw [List.count_cons_self]
        omega
  | @tighter k items e bound inner ih =>
      intro branch mem
      obtain ⟨levels, room, rights⟩ := ih (fun lt => level (by omega)) shallow branch mem
      exact ⟨levels, room, by omega⟩
  | @unary op item items e role inner ih =>
      intro branch mem
      obtain ⟨behind, inside, rfl⟩ := List.mem_map.1 mem
      rw [List.map_cons, role, ← List.singleton_append] at shallow
      obtain ⟨levels, room, rights⟩ :=
        ih (fun lt => absurd lt (Nat.lt_irrefl 6)) shallow.behind behind inside
      rw [depthBehind_unary] at room
      refine ⟨levels, ?_, rights⟩
      rw [List.count_cons_self]
      omega
  | @leaf item e role word =>
      intro branch mem
      have here := shallow.here
      have straight : branch = [] := by
        rcases Word.leaf_cases word with ⟨_, rfl⟩ | ⟨_, rfl⟩ | ⟨_, rfl⟩ <;>
          exact List.mem_singleton.1 mem
      subst straight
      exact ⟨0, here, Nat.zero_le _⟩
  | @enclosed opener closer items e opening closing inner ih =>
      -- A parenthesis takes one of the depth and starts the layers again.
      intro branch mem
      rw [List.map_append, List.map_cons, opening, ← List.singleton_append] at shallow
      have deeper := depthBehind_opening before
      have settled : levelBehind (before ++ [.opening]) = depthBehind (before ++ [.opening]) := by
        rw [levelBehind_opening, deeper]
      obtain ⟨levels, room, rights⟩ := ih (fun _ => settled) shallow.front.behind branch mem
      exact ⟨levels + 1, by omega, by omega⟩

/-! ## Texts -/

namespace Formula

/-- The tree of a text has at most 1024 operations, in all and so on each branch. A branch goes down
from at most 64 prefix operators, and the more there are the fewer are its turns to the right. -/
theorem bounded_of_compile {g : Grammar} {p : Punctuation} {source : String} {f : Formula}
    (h : compile g p source = .ok f) :
    f.root.operations ≤ 1024 ∧ ∀ branch ∈ f.root.branches, branch.length ≤ 1024 ∧
      branch.count .down ≤ 64 ∧ branch.count .right ≤ 6 * (65 - branch.count .down) := by
  have layered := layered_of_compile h
  have clear := ((Context.stands_start g).verdict_eq_none_iff _ _ _).1 (verdict_of_compile h)
  have short : f.root.operations ≤ 1024 := Nat.le_trans layered.operations_le clear.short
  have shallow : Shallow 64 [] ((Scan.ofText p source).items.map Item.role) := clear.shallow
  have outermost : levelBehind [] = depthBehind [] := by decide
  refine ⟨short, ?_⟩
  intro branch mem
  have length := Expr.length_le_operations mem
  obtain ⟨levels, room, rights⟩ := layered.narrow (fun _ => outermost) shallow branch mem
  refine ⟨by omega, by omega, ?_⟩
  -- The text itself is a level too, with room for six turns to the right.
  calc branch.count .right ≤ 6 * levels + 6 := rights
    _ = 6 * (levels + 1) := (Nat.mul_succ 6 levels).symm
    _ ≤ 6 * (65 - branch.count .down) := Nat.mul_le_mul_left 6 (by omega)

/-- A branch down from two prefix operators, and in the parenthesis twice to the right. -/
theorem bounded_of_compile_rising :
    ∃ f, compile .arithmetic .standard "!-(a || 1 < b)" = .ok f ∧ f.root.operations = 4 ∧
      [.down, .down, .right, .right] ∈ f.root.branches ∧
      ([.down, .down, .right, .right] : List Turn).count .right ≤ 6 * (65 - 2) := by
  have compiled : compile .arithmetic .standard "!-(a || 1 < b)" = .ok ⟨"!-(a || 1 < b)",
      .unary .not (.unary .negate
        (.binary .or (.var "a") (.binary .less (.number 1) (.var "b"))))⟩ :=
    eq_ok_of_toOption (by decide +kernel)
  obtain ⟨_, bounded⟩ := bounded_of_compile compiled
  have mem : [Turn.down, .down, .right, .right] ∈ Expr.branches (.unary .not (.unary .negate
      (.binary .or (.var "a") (.binary .less (.number 1) (.var "b"))))) := by decide
  exact ⟨_, compiled, rfl, mem, (bounded _ mem).2.2⟩

end Formula

end Criterion
