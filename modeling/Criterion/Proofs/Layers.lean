/-
# Criterion.Proofs.Layers — the grammar in layers, and its trees

Precedence as a grammar: each binary operator has a layer, an expression of a layer is an expression
of that layer followed by an operator of the layer and an expression of the next one, or is one of
the next layer itself. Behind the six layers of binary operators come prefix operators and then
values and parentheses. `Layered k items e` says that `items` are an expression of layer `k` with
the tree `e`.

* `Layered.unique`: tokens have at most one tree. An expression is read from its end: what a layer
  lacks to its left is settled by the token before it (`Detached`), so a left operand needs no more
  care than the whole.
* `Layered.derives`: every expression of a layer is one of the grammar without layers.
-/
import Criterion.Proofs.Derivation

namespace Criterion

set_option autoImplicit false

/-! ## Layers -/

namespace BinaryOp

/-- The layer of an operator; those that bind tighter come later. -/
def layer : BinaryOp → Nat
  | .or => 0
  | .and => 1
  | .equal | .unequal => 2
  | .less | .lessEqual | .greater | .greaterEqual => 3
  | .add | .subtract => 4
  | .multiply | .divide | .remainder => 5

theorem layer_lt (op : BinaryOp) : op.layer < 6 := by cases op <;> decide

end BinaryOp

/-- The expressions of a layer and their trees. Layers 0 to 5 are those of the binary operators,
layer 6 has the prefix operators, layer 7 values and parentheses. -/
inductive Layered : Nat → List Item → Expr → Prop where
  | operation {k : Nat} {op : BinaryOp} {item : Item} {ls rs : List Item} {l r : Expr} :
      op.layer = k → item.role = .binary op → Layered k ls l → Layered (k + 1) rs r →
      Layered k (ls ++ item :: rs) (.binary op l r)
  | tighter {k : Nat} {items : List Item} {e : Expr} :
      k < 7 → Layered (k + 1) items e → Layered k items e
  | unary {op : UnaryOp} {item : Item} {items : List Item} {e : Expr} :
      item.role = .unary op → Layered 6 items e → Layered 6 (item :: items) (.unary op e)
  | leaf {item : Item} {e : Expr} :
      item.role = .value → item.token.word.leaf? = some e → Layered 7 [item] e
  | enclosed {opener closer : Item} {items : List Item} {e : Expr} :
      opener.role = .opening → closer.role = .closing → Layered 0 items e →
      Layered 7 (opener :: items ++ [closer]) e

/-- A word that is an operand by itself is a leaf. -/
theorem Word.leaf_cases {word : Word} {e : Expr} (h : word.leaf? = some e) :
    (∃ n, e = .number n) ∨ (∃ b, e = .bool b) ∨ ∃ name, e = .var name := by
  cases word <;> cases h <;> simp

namespace Layered

/-- A tighter expression is one of every looser layer. -/
theorem loosen {k m : Nat} {items : List Item} {e : Expr} (h : Layered m items e) (le : k ≤ m)
    (bound : m ≤ 7) : Layered k items e := by
  induction le with
  | refl => exact h
  | @step m le ih => exact ih (.tighter bound h) (by omega)

/-- Layers only restrict the grammar. -/
theorem derives {k : Nat} {items : List Item} {e : Expr} (h : Layered k items e) :
    Derives (items.map Item.role) := by
  induction h with
  | operation _ role _ _ ih_left ih_right =>
      rw [List.map_append, List.map_cons, role]
      exact .binary ih_left ih_right
  | tighter _ _ ih => exact ih
  | unary role _ ih =>
      rw [List.map_cons, role]
      exact .unary ih
  | leaf role _ =>
      rw [List.map_singleton, role]
      exact .value
  | enclosed opening closing _ ih =>
      rw [List.map_append, List.map_cons, List.map_singleton, opening, closing]
      exact .enclosed ih

/-! ## Tokens have one tree -/

/-- The end of `before` does not reach into an expression of layer `k` behind it. -/
def Detached (k : Nat) (before : List Item) : Prop :=
  ∀ item, before.getLast? = some item →
    (∀ op, item.role = .binary op → op.layer < k) ∧ (∀ op, item.role = .unary op → k = 7)

theorem detached_nil (k : Nat) : Detached k [] := fun _ h => by cases h

theorem detached_primary (before : List Item) : Detached 7 before := fun _ _ =>
  ⟨fun op _ => Nat.lt_succ_of_lt op.layer_lt, fun _ _ => rfl⟩

theorem Detached.tighter {k : Nat} {before : List Item} (h : Detached k before) (lt : k < 7) :
    Detached (k + 1) before := fun item last =>
  ⟨fun op role => Nat.lt_succ_of_lt ((h item last).1 op role),
    fun op role => by have := (h item last).2 op role; omega⟩

theorem detached_binary {op : BinaryOp} {item : Item} (role : item.role = .binary op)
    (before : List Item) : Detached (op.layer + 1) (before ++ [item]) := by
  intro last found
  rw [List.getLast?_concat] at found
  cases found
  constructor
  · intro other same
    rw [role] at same
    cases same
    exact Nat.lt_succ_self _
  · intro other same
    rw [role] at same
    cases same

theorem detached_opening {item : Item} (role : item.role = .opening) (k : Nat)
    (before : List Item) : Detached k (before ++ [item]) := by
  intro last found
  rw [List.getLast?_concat] at found
  cases found
  rw [role]
  exact ⟨fun _ same => (by cases same), fun _ same => (by cases same)⟩

theorem not_detached_binary {k : Nat} {op : BinaryOp} {item : Item} (layer : op.layer = k)
    (role : item.role = .binary op) (before : List Item) : ¬ Detached k (before ++ [item]) := by
  intro h
  have reach := (h item (by simp)).1 op role
  omega

/-- `items` are the only end of a text that is an expression of layer `k`, and `e` its tree. -/
def Unique (k : Nat) (items : List Item) (e : Expr) : Prop :=
  ∀ (before before' items' : List Item) (e' : Expr), Layered k items' e' →
    before ++ items = before' ++ items' → Detached k before → Detached k before' →
    items = items' ∧ e = e'

/-! ### Prefix operators -/

/-- The tree behind a prefix operator. -/
def wrap (item : Item) (e : Expr) : Expr :=
  match item.role with
  | .unary op => .unary op e
  | _ => e

/-- An expression of layer 6 is a run of prefix operators and one of layer 7. -/
theorem exists_run {items : List Item} {e : Expr} (h : Layered 6 items e) :
    ∃ run core operand, items = run ++ core ∧ (∀ item ∈ run, ∃ op, item.role = .unary op) ∧
      e = run.foldr wrap operand ∧ Layered 7 core operand := by
  generalize layer : 6 = k at h
  induction h with
  | operation here _ _ _ _ _ =>
      have := BinaryOp.layer_lt ‹_›
      omega
  | @tighter k items e _ inner _ =>
      subst layer
      exact ⟨[], items, e, rfl, fun _ mem => (by cases mem), rfl, inner⟩
  | @unary op item items e role _ ih =>
      obtain ⟨run, core, operand, rfl, signs, rfl, inner⟩ := ih rfl
      refine ⟨item :: run, core, operand, rfl, ?_, ?_, inner⟩
      · intro other mem
        rcases List.mem_cons.1 mem with rfl | mem
        · exact ⟨op, role⟩
        · exact signs other mem
      · rw [List.foldr_cons, wrap, role]
  | leaf | enclosed => omega

theorem not_detached_unary {item : Item} {run before : List Item}
    (signs : ∀ item ∈ run, ∃ op, item.role = .unary op) (mem : run.getLast? = some item)
    (h : Detached 6 (before ++ run)) : False := by
  obtain ⟨op, role⟩ := signs item (List.mem_of_getLast? mem)
  have last : (before ++ run).getLast? = some item := by
    rw [List.getLast?_append, mem, Option.some_or]
  have := (h item last).2 op role
  omega

/-- Where neither text goes on with a prefix operator to its left, the runs are equal. -/
theorem run_eq {before before' run run' : List Item}
    (signs : ∀ item ∈ run, ∃ op, item.role = .unary op)
    (signs' : ∀ item ∈ run', ∃ op, item.role = .unary op)
    (same : before ++ run = before' ++ run') (clear : Detached 6 before)
    (clear' : Detached 6 before') : run = run' := by
  have last_nil {m : List Item} (h : m.getLast? = none) : m = [] := by
    simpa using h
  rcases List.append_eq_append_iff.1 same with ⟨m, rfl, rfl⟩ | ⟨m, rfl, rfl⟩
  · cases last : m.getLast? with
    | none => rw [last_nil last, List.nil_append]
    | some item =>
        exact (not_detached_unary (fun item mem => signs item (List.mem_append_left _ mem)) last
          clear').elim
  · cases last : m.getLast? with
    | none => rw [last_nil last, List.nil_append]
    | some item =>
        exact (not_detached_unary (fun item mem => signs' item (List.mem_append_left _ mem)) last
          clear).elim

theorem unique_of_run {run core : List Item} {operand : Expr}
    (signs : ∀ item ∈ run, ∃ op, item.role = .unary op) (h : Unique 7 core operand) :
    Unique 6 (run ++ core) (run.foldr wrap operand) := by
  intro before before' items' e' other same clear clear'
  obtain ⟨run', core', operand', rfl, signs', rfl, inner⟩ := other.exists_run
  rw [← List.append_assoc, ← List.append_assoc] at same
  obtain ⟨rfl, rfl⟩ := h _ _ _ _ inner same (detached_primary _) (detached_primary _)
  have runs := run_eq signs signs' (List.append_cancel_right same) clear clear'
  exact ⟨by rw [runs], by rw [runs]⟩

/-! ### All layers -/

theorem regroup (before ls rs : List Item) (item : Item) :
    before ++ (ls ++ item :: rs) = before ++ ls ++ [item] ++ rs := by
  simp only [List.append_assoc, List.singleton_append]

theorem eq_of_append_last {xs ys zs : List Item} {x y : Item}
    (h : xs ++ [x] ++ zs = ys ++ [y] ++ zs) : xs = ys ∧ x = y := by
  obtain ⟨front, last⟩ := List.append_inj' (List.append_cancel_right h) rfl
  exact ⟨front, List.singleton_inj.1 last⟩

theorem unique_operation {k : Nat} {op : BinaryOp} {item : Item} {ls rs : List Item} {l r : Expr}
    (layer : op.layer = k) (role : item.role = .binary op) (left : Unique k ls l)
    (right : Unique (k + 1) rs r) : Unique k (ls ++ item :: rs) (.binary op l r) := by
  intro before before' items' e' other same clear clear'
  have reach := op.layer_lt
  have behind : Detached (k + 1) (before ++ ls ++ [item]) := layer ▸ detached_binary role _
  rw [regroup] at same
  cases other with
  | @operation _ op' item' ls' rs' l' r' layer' role' left' right' =>
      have behind' : Detached (k + 1) (before' ++ ls' ++ [item']) :=
        layer' ▸ detached_binary role' _
      rw [regroup] at same
      obtain ⟨rfl, rfl⟩ := right _ _ _ _ right' same behind behind'
      obtain ⟨front, rfl⟩ := eq_of_append_last same
      obtain ⟨rfl, rfl⟩ := left _ _ _ _ left' front clear clear'
      rw [role] at role'
      cases role'
      exact ⟨rfl, rfl⟩
  | tighter lt inner =>
      -- The other text would end in the operator's right operand and detach from the operator.
      obtain ⟨rfl, rfl⟩ := right _ _ _ _ inner same behind (clear'.tighter lt)
      have front := List.append_cancel_right same
      exact absurd (front ▸ clear') (not_detached_binary layer role _)
  | unary | leaf | enclosed => omega

theorem unique_tighter {k : Nat} {items : List Item} {e : Expr} (lt : k < 6)
    (h : Unique (k + 1) items e) : Unique k items e := by
  intro before before' items' e' other same clear clear'
  cases other with
  | @operation _ op item ls rs l r layer role left right =>
      have behind : Detached (k + 1) (before' ++ ls ++ [item]) := layer ▸ detached_binary role _
      rw [regroup] at same
      obtain ⟨rfl, rfl⟩ := h _ _ _ _ right same (clear.tighter (by omega)) behind
      have front := List.append_cancel_right same
      exact absurd (front ▸ clear) (not_detached_binary layer role _)
  | tighter lt' inner => exact h _ _ _ _ inner same (clear.tighter lt') (clear'.tighter lt')
  | unary | leaf | enclosed => omega

theorem unique_leaf {item : Item} {e : Expr} (role : item.role = .value)
    (word : item.token.word.leaf? = some e) : Unique 7 [item] e := by
  intro before before' items' e' other same _ _
  cases other with
  | operation layer => have := BinaryOp.layer_lt ‹_›; omega
  | tighter lt => omega
  | leaf _ word' =>
      obtain ⟨_, last⟩ := List.append_inj' same rfl
      cases last
      rw [word] at word'
      cases word'
      exact ⟨rfl, rfl⟩
  | enclosed _ closing _ =>
      rw [← List.append_assoc] at same
      obtain ⟨_, last⟩ := List.append_inj' same rfl
      cases last
      rw [role] at closing
      cases closing

theorem unique_enclosed {opener closer : Item} {items : List Item} {e : Expr}
    (opening : opener.role = .opening) (closing : closer.role = .closing)
    (h : Unique 0 items e) : Unique 7 (opener :: items ++ [closer]) e := by
  intro before before' items' e' other same _ _
  cases other with
  | operation layer => have := BinaryOp.layer_lt ‹_›; omega
  | tighter lt => omega
  | leaf role _ =>
      rw [← List.append_assoc] at same
      obtain ⟨_, last⟩ := List.append_inj' same rfl
      cases last
      rw [closing] at role
      cases role
  | enclosed opening' _ inner =>
      rw [← List.append_assoc, ← List.append_assoc] at same
      obtain ⟨front, last⟩ := List.append_inj' same rfl
      cases last
      rw [List.append_cons, List.append_cons before'] at front
      obtain ⟨rfl, rfl⟩ := h _ _ _ _ inner front (detached_opening opening _ _)
        (detached_opening opening' _ _)
      obtain ⟨_, head⟩ := List.append_inj' (List.append_cancel_right front) rfl
      cases head
      exact ⟨rfl, rfl⟩

/-- An expression is the only one of its layer that ends where it does. -/
theorem unique {k : Nat} {items : List Item} {e : Expr} (h : Layered k items e) :
    Unique k items e := by
  by_cases six : k = 6
  · subst six
    obtain ⟨run, core, operand, rfl, signs, rfl, inner⟩ := h.exists_run
    exact unique_of_run signs inner.unique
  · cases h with
    | operation layer role left right =>
        exact unique_operation layer role left.unique right.unique
    | tighter lt inner => exact unique_tighter (by omega) inner.unique
    | unary => omega
    | leaf role word => exact unique_leaf role word
    | enclosed opening closing inner => exact unique_enclosed opening closing inner.unique
termination_by 8 * items.length + (8 - k)
decreasing_by
  all_goals subst_vars
  all_goals simp +arith only [List.length_append, List.length_cons, List.length_nil]
  all_goals omega

/-- Tokens have at most one tree. -/
theorem eq_of_layered {items : List Item} {e e' : Expr} (h : Layered 0 items e)
    (h' : Layered 0 items e') : e = e' :=
  (h.unique [] [] items e' h' rfl (detached_nil 0) (detached_nil 0)).2

end Layered

end Criterion
