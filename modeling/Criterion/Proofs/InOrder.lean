/-
# Criterion.Proofs.InOrder — the tree of a text, read from left to right

A tree has no places, but its nodes are in an order: a prefix operator is before its operand, a
binary operator between its operands. `Expr.inOrder` reads a tree so, and what it reads are the
tokens of the text in their order, none twice and none left out but the parentheses
(`Layered.inOrder_eq`, `Item.map_some_filterMap_step?`). Names are some of what is read, so the
names of a tree are those of the tokens (`Formula.names_of_compile`).
-/
import Criterion.Expr.Postfix
import Criterion.Proofs.Bytes
import Criterion.Proofs.Parse

namespace Criterion

set_option autoImplicit false

/-! ## Reading a tree -/

namespace Expr

/-- The nodes of a tree from left to right. -/
def inOrder : Expr → List Step
  | .unary op operand => .unary op :: operand.inOrder
  | .binary op left right => left.inOrder ++ .binary op :: right.inOrder
  | e => [.leaf e]

/-- The variable that a node is. -/
def Step.name? : Step → Option String
  | .leaf (.var name) => some name
  | _ => none

/-- The variables of a tree are among its nodes. -/
theorem names_eq_filterMap (e : Expr) : e.names = e.inOrder.filterMap Step.name? := by
  induction e with
  | number | bool | var => rfl
  | unary op operand ih => exact ih
  | binary op left right ih_left ih_right =>
      have none : (Step.binary op).name? = none := rfl
      rw [names, ih_left, ih_right, inOrder, List.filterMap_append, List.filterMap_cons_none none]

end Expr

/-! ## Tokens as nodes -/

namespace Word

def isParen : Word → Bool
  | .openParen | .closeParen => true
  | _ => false

/-- The variable that a word stands for. -/
def name? : Word → Option String
  | .name text => some text
  | _ => none

theorem name?_eq_some_iff {word : Word} {name : String} :
    word.name? = some name ↔ word = .name name := by
  cases word <;> simp [name?]

end Word

namespace Item

/-- The node that a token is in its role. -/
def step? (item : Item) : Option Expr.Step :=
  match item.role with
  | .value => item.token.word.leaf?.map .leaf
  | .unary op => some (.unary op)
  | .binary op => some (.binary op)
  | .opening | .closing => none

/-- The role is one that the word can have. -/
def Known (item : Item) : Prop := ∃ before, item.role = Role.ofWord before item.token.word

variable {item : Item}

/-- Every token but a parenthesis is a node, and that of a variable if it is a name. -/
theorem Known.step?_spec (known : item.Known) :
    item.step?.isSome = !item.token.word.isParen ∧
      item.step?.bind Expr.Step.name? = item.token.word.name? := by
  obtain ⟨before, role⟩ := known
  unfold step?
  rw [role]
  cases item.token.word with
  | sign sign =>
      rcases Role.ofSign_cases (before.all Role.needsRight) sign with ⟨op, eq⟩ | ⟨op, eq⟩ <;>
        rw [Role.ofWord, eq] <;> exact ⟨rfl, rfl⟩
  | number | name | bool | openParen | closeParen => exact ⟨rfl, rfl⟩

end Item

/-- The nodes of a tree are its tokens, in their order. -/
theorem Layered.inOrder_eq {k : Nat} {items : List Item} {e : Expr} (h : Layered k items e) :
    e.inOrder = items.filterMap Item.step? := by
  induction h with
  | @operation k op item ls rs l r layer role left right ih_left ih_right =>
      have node : item.step? = some (.binary op) := by rw [Item.step?, role]
      rw [Expr.inOrder, ih_left, ih_right, List.filterMap_append, List.filterMap_cons_some node]
  | tighter _ _ ih => exact ih
  | @unary op item items e role inner ih =>
      have node : item.step? = some (.unary op) := by rw [Item.step?, role]
      rw [Expr.inOrder, ih, List.filterMap_cons_some node]
  | @leaf item e role word =>
      have node : item.step? = some (.leaf e) := by rw [Item.step?, role, word]; rfl
      rw [List.filterMap_cons_some node, List.filterMap_nil]
      rcases Word.leaf_cases word with ⟨_, rfl⟩ | ⟨_, rfl⟩ | ⟨_, rfl⟩ <;> rfl
  | @enclosed opener closer items e opening closing inner ih =>
      have first : opener.step? = none := by rw [Item.step?, opening]
      have last : closer.step? = none := by rw [Item.step?, closing]
      rw [ih, List.filterMap_append, List.filterMap_cons_none first,
        List.filterMap_cons_none last, List.filterMap_nil, List.append_nil]

/-- Tokens and nodes are one to one, but for the parentheses. -/
theorem Item.map_some_filterMap_step? {items : List Item} (known : ∀ item ∈ items, item.Known) :
    (items.filterMap Item.step?).map some =
      (items.filter fun item => !item.token.word.isParen).map Item.step? := by
  induction items with
  | nil => rfl
  | cons item rest ih =>
      have node_iff := (known item (.head _)).step?_spec.1
      have tail := ih fun other mem => known other (.tail _ mem)
      cases node : item.step? with
      | none =>
          rw [node] at node_iff
          rw [List.filterMap_cons_none node, List.filter_cons_of_neg (by simp [← node_iff]), tail]
      | some step =>
          rw [node] at node_iff
          rw [List.filterMap_cons_some node, List.filter_cons_of_pos (by simp [← node_iff]),
            List.map_cons, List.map_cons, node, tail]

/-! ## Texts -/

namespace Formula

section

variable {g : Grammar} {p : Punctuation} {source : String} {f : Formula}

theorem names_of_compile (h : compile g p source = .ok f) :
    f.root.names = (Scan.ofText p source).tokens.filterMap fun token => token.word.name? := by
  have tokens : (Scan.ofText p source).items.map Item.token = (Scan.ofText p source).tokens :=
    Item.map_token_inOrder none _
  rw [Expr.names_eq_filterMap, (layered_of_compile h).inOrder_eq, List.filterMap_filterMap,
    ← tokens, List.filterMap_map]
  refine List.filterMap_congr fun item mem => ?_
  have known : item.Known := Item.exists_ofWord mem
  exact known.step?_spec.2

/-- Read in order, the tree of a text is its tokens without the parentheses. So its variables are
the names among them, as they come, and its inputs are these names, each once, in the order of
their bytes. -/
theorem inOrder_of_compile (h : compile g p source = .ok f) :
    f.root.inOrder.map some =
        ((Scan.ofText p source).items.filter fun item => !item.token.word.isParen).map Item.step? ∧
      f.root.names = (Scan.ofText p source).tokens.filterMap (fun token => token.word.name?) ∧
      (∀ name, name ∈ f.inputs ↔
        ∃ token ∈ (Scan.ofText p source).tokens, token.word = .name name) ∧
      f.inputs.Pairwise fun a b => Text.bytes a < Text.bytes b := by
  refine ⟨?_, names_of_compile h, fun name => ?_, ?_⟩
  · rw [(layered_of_compile h).inOrder_eq]
    exact Item.map_some_filterMap_step? fun item mem => Item.exists_ofWord mem
  · rw [inputs, Expr.mem_inputs, names_of_compile h, List.mem_filterMap]
    simp only [Word.name?_eq_some_iff]
  · exact f.root.inputs_pairwise.imp Text.bytes_lt

end

/-- One `-` negates and the other subtracts; a name that occurs twice is listed once, behind one
whose bytes are less. -/
theorem inOrder_of_compile_repeated :
    ∃ f, compile .arithmetic .standard "-é - (b * é)" = .ok f ∧
      f.root.inOrder = [.unary .negate, .leaf (.var "é"), .binary .subtract, .leaf (.var "b"),
        .binary .multiply, .leaf (.var "é")] ∧
      f.root.inOrder.map some = ((Scan.ofText .standard "-é - (b * é)").items.filter fun item =>
        !item.token.word.isParen).map Item.step? ∧
      f.inputs = ["b", "é"] ∧ Text.bytes "b" < Text.bytes "é" := by
  have compiled : compile .arithmetic .standard "-é - (b * é)" = .ok ⟨"-é - (b * é)",
      .binary .subtract (.unary .negate (.var "é")) (.binary .multiply (.var "b") (.var "é"))⟩ :=
    eq_ok_of_toOption (by decide +kernel)
  obtain ⟨tokens, _, _, ordered⟩ := inOrder_of_compile compiled
  have inputs : inputs ⟨"-é - (b * é)", .binary .subtract (.unary .negate (.var "é"))
      (.binary .multiply (.var "b") (.var "é"))⟩ = ["b", "é"] := by decide +kernel
  rw [inputs] at ordered
  exact ⟨_, compiled, rfl, tokens, inputs, (List.pairwise_cons.1 ordered).1 _ (.head _)⟩

end Formula

end Criterion
