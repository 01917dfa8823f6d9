/-
# Criterion.Proofs.Derivation — which sequences of roles are expressions

`Item.inOrder` gives the tokens of a text their roles from left to right. `Derives` is the grammar
of expressions over such roles, without precedence: a value, a prefix operator before an expression,
a binary operator between two, an expression in parentheses.

A reader that goes from left to right has only a `Stance` to remember: whether an operand is due and
how many parentheses are open. `Derives.walk` says that such a reader gets through every expression
and stands behind it as before it, with the operand no longer due.
-/
import Criterion.Grammar

namespace Criterion

set_option autoImplicit false

/-- Tokens in their roles, where `previous` is the role of the token before them. -/
def Item.inOrder (previous : Option Role) : List Token → List Item
  | [] => []
  | token :: rest =>
      ⟨Role.ofWord previous token.word, token⟩ ::
        inOrder (some (Role.ofWord previous token.word)) rest

theorem Item.map_token_inOrder (previous : Option Role) (tokens : List Token) :
    (Item.inOrder previous tokens).map Item.token = tokens := by
  induction tokens generalizing previous with
  | nil => rfl
  | cons token rest ih => rw [inOrder, List.map_cons, ih]

/-- Tokens behind others stand behind the last of them. -/
theorem Item.inOrder_append (previous : Option Role) (xs ys : List Token) :
    inOrder previous (xs ++ ys) =
      inOrder previous xs ++
        inOrder ((((inOrder previous xs).map role).getLast?).or previous) ys := by
  induction xs generalizing previous with
  | nil => rfl
  | cons token rest ih =>
      rw [List.cons_append, inOrder, ih, inOrder, List.cons_append, List.map_cons,
        List.getLast?_cons, Option.some_or]
      cases ((inOrder (some (Role.ofWord previous token.word)) rest).map role).getLast? <;> rfl

/-- The role of a token is one of its word. -/
theorem Item.exists_ofWord {previous : Option Role} {tokens : List Token} {item : Item}
    (mem : item ∈ Item.inOrder previous tokens) :
    ∃ before, item.role = Role.ofWord before item.token.word := by
  induction tokens generalizing previous with
  | nil => cases mem
  | cons token rest ih =>
      rcases List.mem_cons.1 mem with rfl | mem
      · exact ⟨previous, rfl⟩
      · exact ih mem

/-! ## The grammar -/

/-- The sequences of roles that are expressions. -/
inductive Derives : List Role → Prop where
  | value : Derives [.value]
  | unary {op : UnaryOp} {operand : List Role} :
      Derives operand → Derives (.unary op :: operand)
  | binary {op : BinaryOp} {left right : List Role} :
      Derives left → Derives right → Derives (left ++ .binary op :: right)
  | enclosed {inner : List Role} :
      Derives inner → Derives (.opening :: inner ++ [.closing])

/-- The last token of an expression needs nothing to its right. -/
theorem Derives.exists_last {roles : List Role} (h : Derives roles) :
    ∃ last, roles.getLast? = some last ∧ last.needsRight = false := by
  induction h with
  | value => exact ⟨.value, rfl, rfl⟩
  | unary _ ih =>
      obtain ⟨last, found, operand⟩ := ih
      exact ⟨last, by rw [List.getLast?_cons, found]; rfl, operand⟩
  | binary _ _ _ ih =>
      obtain ⟨last, found, operand⟩ := ih
      exact ⟨last, by rw [List.getLast?_append, List.getLast?_cons, found]; rfl, operand⟩
  | enclosed _ _ => exact ⟨.closing, List.getLast?_concat .., rfl⟩

/-! ## Reading from left to right -/

/-- The parentheses open behind a token, where `n` are open before it. -/
def Role.leavesOpen (n : Nat) : Role → Nat
  | .opening => n + 1
  | .closing => n - 1
  | _ => n

structure Stance where
  /-- An operand must come next. -/
  due : Bool
  /-- The parentheses that are open. -/
  opened : Nat
deriving DecidableEq, Repr

namespace Stance

def start : Stance := ⟨true, 0⟩

/-- Where an expression may end. -/
def done : Stance := ⟨false, 0⟩

/-- The stance behind a token that may stand here. -/
def step (st : Stance) (role : Role) : Option Stance :=
  if st.due = role.needsLeft ∨ (role = .closing ∧ st.opened = 0) then none
  else some ⟨role.needsRight, role.leavesOpen st.opened⟩

/-- The stance behind tokens each of which may stand where it does. -/
def walk (st : Stance) : List Role → Option Stance
  | [] => some st
  | role :: rest => (st.step role).bind fun next => next.walk rest

@[simp] theorem step_value (n : Nat) : step ⟨true, n⟩ .value = some ⟨false, n⟩ := rfl

@[simp] theorem step_unary (n : Nat) (op : UnaryOp) :
    step ⟨true, n⟩ (.unary op) = some ⟨true, n⟩ := rfl

@[simp] theorem step_binary (n : Nat) (op : BinaryOp) :
    step ⟨false, n⟩ (.binary op) = some ⟨true, n⟩ := rfl

@[simp] theorem step_opening (n : Nat) : step ⟨true, n⟩ .opening = some ⟨true, n + 1⟩ := rfl

@[simp] theorem step_closing (n : Nat) : step ⟨false, n + 1⟩ .closing = some ⟨false, n⟩ := rfl

@[simp] theorem walk_nil (st : Stance) : st.walk [] = some st := rfl

@[simp] theorem walk_cons (st : Stance) (role : Role) (rest : List Role) :
    st.walk (role :: rest) = (st.step role).bind fun next => next.walk rest := rfl

theorem walk_append (st : Stance) (xs ys : List Role) :
    st.walk (xs ++ ys) = (st.walk xs).bind fun next => next.walk ys := by
  induction xs generalizing st with
  | nil => rfl
  | cons role rest ih =>
      rw [List.cons_append, walk_cons, walk_cons, Option.bind_assoc]
      exact Option.bind_congr fun next _ => ih next

theorem step_eq_some_iff {st next : Stance} {role : Role} :
    st.step role = some next ↔
      st.due ≠ role.needsLeft ∧ ¬ (role = .closing ∧ st.opened = 0) ∧
        next = ⟨role.needsRight, role.leavesOpen st.opened⟩ := by
  unfold step
  split
  · next h => exact ⟨fun eq => (by cases eq), fun ⟨fits, opens, _⟩ => (h.elim fits opens).elim⟩
  · next h =>
      rw [not_or] at h
      exact ⟨fun eq => ⟨h.1, h.2, (Option.some.inj eq).symm⟩, fun ⟨_, _, eq⟩ => eq ▸ rfl⟩

/-- A token that may stand where an operand is due. -/
theorem step_due {n : Nat} {role : Role} {next : Stance} (h : step ⟨true, n⟩ role = some next) :
    (role = .value ∧ next = ⟨false, n⟩) ∨ (∃ op, role = .unary op ∧ next = ⟨true, n⟩) ∨
      (role = .opening ∧ next = ⟨true, n + 1⟩) := by
  cases role with
  | value => exact .inl ⟨rfl, (Option.some.inj h).symm⟩
  | unary op => exact .inr (.inl ⟨op, rfl, (Option.some.inj h).symm⟩)
  | opening => exact .inr (.inr ⟨rfl, (Option.some.inj h).symm⟩)
  | binary op => simp [step, Role.needsLeft] at h
  | closing => simp [step, Role.needsLeft] at h

/-- A token that may stand behind an operand. -/
theorem step_not_due {n : Nat} {role : Role} {next : Stance}
    (h : step ⟨false, n⟩ role = some next) :
    (∃ op, role = .binary op ∧ next = ⟨true, n⟩) ∨
      (role = .closing ∧ ∃ m, n = m + 1 ∧ next = ⟨false, m⟩) := by
  cases role with
  | binary op => exact .inl ⟨op, rfl, (Option.some.inj h).symm⟩
  | closing =>
      cases n with
      | zero => simp [step, Role.needsLeft] at h
      | succ m => exact .inr ⟨rfl, m, rfl, (Option.some.inj h).symm⟩
  | value => simp [step, Role.needsLeft] at h
  | unary op => simp [step, Role.needsLeft] at h
  | opening => simp [step, Role.needsLeft] at h

end Stance

/-- Behind an expression no operand is due and the same parentheses are open as before it. -/
theorem Derives.walk {roles : List Role} (h : Derives roles) (n : Nat) :
    Stance.walk ⟨true, n⟩ roles = some ⟨false, n⟩ := by
  induction h generalizing n with
  | value => rfl
  | unary _ ih =>
      rw [Stance.walk_cons, Stance.step_unary, Option.bind_some]
      exact ih n
  | binary _ _ ih_left ih_right =>
      rw [Stance.walk_append, ih_left, Option.bind_some, Stance.walk_cons, Stance.step_binary,
        Option.bind_some]
      exact ih_right n
  | enclosed _ ih =>
      rw [Stance.walk_append, Stance.walk_cons, Stance.step_opening, Option.bind_some, ih,
        Option.bind_some, Stance.walk_cons, Stance.step_closing, Option.bind_some,
        Stance.walk_nil]

end Criterion
