/-
# Criterion.Proofs.Language — the texts that are formulas

A text is accepted by checks of one token after the other. `Scan.IsExpression` describes the texts
that pass them without any reader: the tokens derive from the grammar of expressions, white space of
the text stands around every binary operator, the tokens are in the vocabulary, and two limits hold
of all of them and at each of them. `compile_iff_isExpression` says that these are all the texts that
compile, and no others.

A binary operator has tokens on both sides, so there is text on both sides of it (`inner_of_binary`);
without this a token at the start of a text, which counts as standing behind white space, would have
to be told apart.
-/
import Criterion.Proofs.Parse
import Criterion.Proofs.Scanning

namespace Criterion

set_option autoImplicit false

/-! ## White space around a token -/

namespace Token

/-- White space of the text is directly before the token. -/
def BlankBefore (text : List Char) (token : Token) : Prop :=
  ∃ c, (text.take token.start.chars).getLast? = some c ∧ Text.isBlank c = true

/-- White space of the text is directly behind the token. -/
def BlankBehind (text : List Char) (token : Token) : Prop :=
  ∃ c, (text.drop token.stop.chars).head? = some c ∧ Text.isBlank c = true

section

variable {text : List Char} {token : Token}

/-- Where there is text before a token, the token knows of white space that is there. -/
theorem Lies.spacedBefore_iff (h : token.Lies text) (inner : 0 < token.start.chars) :
    token.spacedBefore = true ↔ token.BlankBefore text := by
  have room : (text.take token.start.chars) ≠ [] := by
    intro none
    have length := congrArg List.length none
    have long := h.long
    have inside := h.inside
    rw [List.length_take, List.length_nil] at length
    omega
  rw [h.before, BlankBefore, List.getLast?_eq_some_getLast room]
  simp

theorem Lies.spacedAfter_iff (h : token.Lies text) (inner : token.stop.chars < text.length) :
    token.spacedAfter = true ↔ token.BlankBehind text := by
  have room : (text.drop token.stop.chars) ≠ [] := by
    intro none
    have length := congrArg List.length none
    rw [List.length_drop, List.length_nil] at length
    omega
  rw [h.behind, BlankBehind, List.head?_eq_some_head room]
  simp

end

end Token

/-! ## Checks of one token -/

theorem Role.isLogical_iff (role : Role) :
    role.isLogical = true ↔
      role ≠ .unary .complement ∧ role ≠ .unary .negate ∧
        ∀ op, role = .binary op → op ∈ [BinaryOp.or, .and, .equal, .unequal] := by
  cases role with
  | unary op => cases op <;> simp [Role.isLogical]
  | binary op => cases op <;> simp [Role.isLogical, BinaryOp.isLogical]
  | _ => simp [Role.isLogical]

namespace Item

/-- The vocabulary of the boolean grammar. -/
structure Logical (item : Item) : Prop where
  no_number : ∀ n, item.token.word ≠ .number n
  no_complement : item.role ≠ .unary .complement
  no_negation : item.role ≠ .unary .negate
  operators : ∀ op, item.role = .binary op → op ∈ [BinaryOp.or, .and, .equal, .unequal]

theorem foreign_boolean_eq_none_iff (item : Item) :
    item.foreign .boolean = none ↔ item.Logical := by
  rw [item.foreign_boolean_iff, Role.isLogical_iff]
  constructor
  · rintro ⟨number, complement, negation, operators⟩
    exact ⟨number, complement, negation, operators⟩
  · rintro ⟨number, complement, negation, operators⟩
    exact ⟨number, complement, negation, operators⟩

theorem foreign_eq_none_iff (g : Grammar) (item : Item) :
    item.foreign g = none ↔ (g = .boolean → item.Logical) := by
  cases g with
  | arithmetic => simp [foreign]
  | boolean => simpa using item.foreign_boolean_eq_none_iff

end Item

/-! ## Operators inside a text -/

/-- No binary operator is the first or the last token that a reader passes. -/
theorem Stance.inner_of_walk {before behind : List Role} {op : BinaryOp}
    (walked : start.walk (before ++ .binary op :: behind) = some done) :
    before ≠ [] ∧ behind ≠ [] := by
  constructor
  · rintro rfl
    have refused : start.step (.binary op) = none := rfl
    rw [List.nil_append, walk_cons, refused] at walked
    cases walked
  · rintro rfl
    rw [walk_append, Option.bind_eq_some_iff] at walked
    obtain ⟨last, _, stepped⟩ := walked
    rw [walk_cons, Option.bind_eq_some_iff] at stepped
    obtain ⟨next, step, ended⟩ := stepped
    obtain ⟨_, _, rfl⟩ := step_eq_some_iff.1 step
    cases ended

namespace Scan

theorem token_mem {p : Punctuation} {source : String} {item : Item}
    (mem : item ∈ (ofText p source).items) : item.token ∈ (ofText p source).tokens := by
  rw [← Item.map_token_inOrder none (ofText p source).tokens]
  exact List.mem_map_of_mem mem

theorem lies_of_mem_items {p : Punctuation} {source : String} {item : Item}
    (mem : item ∈ (ofText p source).items) : item.token.Lies source.toList :=
  lies_of_mem_ofText (token_mem mem)

/-- There is text on both sides of a binary operator. -/
theorem inner_of_binary {p : Punctuation} {source : String} {item : Item} {op : BinaryOp}
    (walked : Stance.start.walk ((ofText p source).items.map Item.role) = some .done)
    (mem : item ∈ (ofText p source).items) (binary : item.role = .binary op) :
    0 < item.token.start.chars ∧ item.token.stop.chars < source.toList.length := by
  have tokens : (ofText p source).items.map Item.token = (ofText p source).tokens :=
    Item.map_token_inOrder none _
  have ordered := pairwise_ofText p source
  rw [← tokens, List.pairwise_map] at ordered
  obtain ⟨before, behind, split⟩ := List.append_of_mem mem
  rw [split, List.map_append, List.map_cons, binary] at walked
  obtain ⟨some_before, some_behind⟩ := Stance.inner_of_walk walked
  rw [ne_eq, List.map_eq_nil_iff] at some_before some_behind
  rw [split, List.pairwise_append, List.pairwise_cons] at ordered
  obtain ⟨_, ⟨follows, _⟩, precedes⟩ := ordered
  constructor
  · obtain ⟨first, rest, rfl⟩ := List.exists_cons_of_ne_nil some_before
    have first_mem : first ∈ (ofText p source).items := by simp [split]
    have long := (lies_of_mem_items first_mem).long
    have apart := precedes first (by simp) item (by simp)
    omega
  · obtain ⟨next, rest, rfl⟩ := List.exists_cons_of_ne_nil some_behind
    have next_mem : next ∈ (ofText p source).items := by simp [split]
    have long := (lies_of_mem_items next_mem).long
    have inside := (lies_of_mem_items next_mem).inside
    have apart := follows next (by simp)
    omega

/-! ## Expressions -/

/-- The tokens of a text are an expression of the grammar within the limits. -/
structure IsExpression (g : Grammar) (text : List Char) (scan : Scan) : Prop where
  readable : scan.fault = none
  nonempty : scan.tokens ≠ []
  derived : Derives (scan.items.map Item.role)
  spaced : ∀ item ∈ scan.items, ∀ op, item.role = .binary op →
    item.token.BlankBefore text ∧ item.token.BlankBehind text
  short : (scan.items.map Item.role).countP (· ≠ .value) ≤ 1024
  shallow : ∀ roles, roles <+: scan.items.map Item.role → depthBehind roles ≤ 64
  logical : g = .boolean → ∀ item ∈ scan.items, item.Logical

section

variable {g : Grammar} {p : Punctuation} {source : String}

theorem isExpression_of_faultless
    (derived : Derives ((ofText p source).items.map Item.role))
    (clear : (Context.start g).Faultless [] (ofText p source).fault (ofText p source).items) :
    (ofText p source).IsExpression g source.toList where
  readable := clear.readable
  nonempty := by
    intro none
    have empty : (ofText p source).items = [] := by rw [items, none]; rfl
    rw [empty] at derived
    have walked := derived.walk 0
    cases walked
  derived := derived
  spaced := by
    intro item mem op binary
    have inner := inner_of_binary clear.walked mem binary
    have lies := lies_of_mem_items mem
    have before := item.crampedBefore_eq_none_iff.1 (clear.before item mem) op binary
    have behind := item.crampedAfter_eq_none_iff.1 (clear.behind item mem) op binary
    exact ⟨(lies.spacedBefore_iff inner.1).1 before, (lies.spacedAfter_iff inner.2).1 behind⟩
  short := clear.short
  shallow := clear.shallow
  logical := by
    rintro rfl item mem
    exact item.foreign_boolean_eq_none_iff.1 (clear.known item mem)

theorem IsExpression.faultless (h : (ofText p source).IsExpression g source.toList) :
    (Context.start g).Faultless [] (ofText p source).fault (ofText p source).items := by
  have walked := h.derived.walk 0
  have spaced : ∀ item ∈ (ofText p source).items, ∀ op, item.role = .binary op →
      item.token.spacedBefore = true ∧ item.token.spacedAfter = true := by
    intro item mem op binary
    have inner := inner_of_binary walked mem binary
    have lies := lies_of_mem_items mem
    obtain ⟨before, behind⟩ := h.spaced item mem op binary
    exact ⟨(lies.spacedBefore_iff inner.1).2 before, (lies.spacedAfter_iff inner.2).2 behind⟩
  constructor
  case readable => exact h.readable
  case walked => exact walked
  case known =>
    intro item mem
    exact (item.foreign_eq_none_iff g).2 fun boolean => h.logical boolean item mem
  case before =>
    intro item mem
    exact item.crampedBefore_eq_none_iff.2 fun op binary => (spaced item mem op binary).1
  case behind =>
    intro item mem
    exact item.crampedAfter_eq_none_iff.2 fun op binary => (spaced item mem op binary).2
  case short => exact h.short
  case shallow => exact h.shallow

end

end Scan

/-- The texts that compile are the expressions. -/
theorem Formula.compile_iff_isExpression (g : Grammar) (p : Punctuation) (source : String) :
    (∃ f, compile g p source = .ok f) ↔ (Scan.ofText p source).IsExpression g source.toList := by
  have verdict := (Context.stands_start g).verdict_eq_none_iff source.toList.length
    (Scan.ofText p source).fault (Scan.ofText p source).tokens
  rw [exists_compile_eq_ok_iff, verdict]
  constructor
  · intro clear
    obtain ⟨f, compiled⟩ := (exists_compile_eq_ok_iff g p source).2 (verdict.2 clear)
    have layered := layered_of_parse (parse_of_compile compiled)
    exact Scan.isExpression_of_faultless layered.derives clear
  · exact Scan.IsExpression.faultless

end Criterion
