/-
# Criterion.Arrangement — tokens arranged by precedence

Tokens become a tree by climbing: an operand is followed by every binary operator that binds at
least as tightly as the place asks for, each with a right operand from the place one step tighter,
so equal operators group to the left. A prefix operator takes the operand behind it, and parentheses
leave no trace in the tree.

Tokens are shown and handed out by an admission as climbing asks for them, so a fault behind the
place where climbing stops would go unnoticed, and climbing has objections of its own, where it is
handed a token that fits nowhere. An `Arrangement` keeps the two kinds of failure apart: `fault` is
what the admission refused, `stray` what climbing objects to.

Climbing goes down into operands, one call inside another. `binary`, `unary` and `primary` are given
the number of calls that may be active at once; `spent` is the answer when that is not enough.
`ne_spent` says how many always are, so `Admission.parse` has no such answer.
-/
import Criterion.Admission

namespace Criterion

set_option autoImplicit false

/-- What comes of arranging the tokens that an admission hands out. -/
inductive Arrangement where
  /-- A tree and what is left to hand out behind it. -/
  | tree (e : Expr) (rest : Admission)
  /-- A token was refused. -/
  | fault (d : Diagnostic)
  /-- A token was handed out that has no place here. -/
  | stray (cause : GrammarFault)
  /-- More calls were needed at once than were allowed. -/
  | spent
deriving DecidableEq, Repr

namespace Arrangement

/-- Goes on behind a tree; anything else stays what it is. -/
def bind (a : Arrangement) (next : Expr → Admission → Arrangement) : Arrangement :=
  match a with
  | tree e rest => next e rest
  | fault d => fault d
  | stray cause => stray cause
  | spent => spent

/-- Goes on with the token that an admission answers. -/
def ask (reply : Admission.Reply) (next : Option Item → Admission → Arrangement) : Arrangement :=
  match reply with
  | (.ok item, rest) => next item rest
  | (.error d, _) => fault d

/-! ## Climbing -/

def unexpected (item : Item) : Arrangement :=
  stray (.unexpected item.token.text item.index)

/-- The prefix operator that a token is. -/
def prefixOf : Option Item → Option UnaryOp
  | some ⟨.unary op, _⟩ => some op
  | _ => none

/-- The binary operator that a token is, where its precedence must be at least `least`. -/
def infixOf (least : Nat) : Option Item → Option BinaryOp
  | some ⟨.binary op, _⟩ => if least ≤ op.precedence then some op else none
  | _ => none

/-- Goes on from the operand `left` through operators of precedence at least `least`, fewer than
`steps` of them, with `operand` for what stands to their right. -/
def climb (operand : Nat → Admission → Arrangement) (least : Nat) :
    Nat → Expr → Admission → Arrangement
  | 0, _, _ => spent
  | steps + 1, left, s =>
      ask s.peek fun item shown =>
        match infixOf least item with
        | none => tree left shown
        | some op =>
            ask shown.take fun _ rest =>
              (operand (op.precedence + 1) rest).bind fun right behind =>
                climb operand least steps (.binary op left right) behind

/-- The end of the parenthesis that `opener` began, behind the tree `inner`. -/
def enclose (opener : Item) (inner : Expr) (s : Admission) : Arrangement :=
  ask s.take fun item rest =>
    match item with
    | none => stray (.unclosed opener.index)
    | some item => if item.role = .closing then tree inner rest else unexpected item

mutual

/-- An operand and the operators of precedence at least `least` that follow it. -/
def binary : Nat → Nat → Admission → Arrangement
  | 0, _, _ => spent
  | depth + 1, least, s =>
      (unary depth s).bind fun left rest =>
        climb (binary depth) least (rest.remaining + 1) left rest
termination_by structural depth => depth

/-- Prefix operators and the operand behind them. -/
def unary : Nat → Admission → Arrangement
  | 0, _ => spent
  | depth + 1, s =>
      ask s.peek fun item shown =>
        match prefixOf item with
        | some op =>
            ask shown.take fun _ rest =>
              (unary depth rest).bind fun operand => tree (.unary op operand)
        | none => primary depth shown
termination_by structural depth => depth

/-- A literal, a name or an expression in parentheses. -/
def primary : Nat → Admission → Arrangement
  | 0, _ => spent
  | depth + 1, s =>
      ask s.take fun item rest =>
        match item with
        | none => stray .empty
        | some item =>
            match item.token.word.leaf? with
            | some e => tree e rest
            | none =>
                if item.token.word = .openParen then (binary depth 0 rest).bind (enclose item)
                else unexpected item
termination_by structural depth => depth

end

/-- The tree of all tokens. -/
def whole (depth : Nat) (s : Admission) : Arrangement :=
  (binary depth 0 s).bind fun e rest =>
    ask rest.take fun item done =>
      match item with
      | none => tree e done
      | some item => unexpected item

/-! ## Progress -/

theorem bind_eq_tree {a : Arrangement} {next : Expr → Admission → Arrangement} {e : Expr}
    {rest : Admission} (h : a.bind next = tree e rest) :
    ∃ first behind, a = tree first behind ∧ next first behind = tree e rest := by
  cases a with
  | tree first behind => exact ⟨first, behind, rfl, h⟩
  | _ => cases h

theorem ask_eq_tree {reply : Admission.Reply} {next : Option Item → Admission → Arrangement}
    {e : Expr} {rest : Admission} (h : ask reply next = tree e rest) :
    ∃ item behind, reply = (.ok item, behind) ∧ next item behind = tree e rest := by
  rcases reply with ⟨_ | item, behind⟩
  · cases h
  · exact ⟨item, behind, rfl, h⟩

theorem bind_ne_spent {a : Arrangement} {next : Expr → Admission → Arrangement}
    (first : a ≠ spent) (second : ∀ e rest, a = tree e rest → next e rest ≠ spent) :
    a.bind next ≠ spent := by
  cases a with
  | tree e rest => exact second e rest rfl
  | spent => exact absurd rfl first
  | _ => simp [bind]

theorem ask_ne_spent {reply : Admission.Reply} {next : Option Item → Admission → Arrangement}
    (h : ∀ item rest, reply = (.ok item, rest) → next item rest ≠ spent) :
    ask reply next ≠ spent := by
  rcases reply with ⟨d | item, rest⟩
  · simp [ask]
  · exact h item rest rfl

/-- A token that has been shown is the one that is handed out. -/
theorem take_of_peek_take {s shown rest : Admission} {item : Item} {answer : Option Item}
    (peeked : s.peek = (.ok (some item), shown)) (taken : shown.take = (.ok answer, rest)) :
    s.take = (.ok (some item), rest) := by
  have same : s.take = (.ok answer, rest) := Admission.take_of_peek peeked ▸ taken
  have found : answer = some item := by
    rw [Admission.take, peeked] at same
    cases same
    rfl
  exact found ▸ same

/-- A token that has been shown is one fewer when it is handed out. -/
theorem remaining_lt_of_peek_take {s shown rest : Admission} {item : Item} {answer : Option Item}
    (peeked : s.peek = (.ok (some item), shown)) (taken : shown.take = (.ok answer, rest)) :
    rest.remaining < s.remaining :=
  Admission.remaining_lt_of_take (take_of_peek_take peeked taken)

theorem eq_some_of_prefixOf {item : Option Item} {op : UnaryOp} (h : prefixOf item = some op) :
    ∃ found, item = some found ∧ found.role = .unary op := by
  unfold prefixOf at h
  split at h <;> cases h
  exact ⟨_, rfl, rfl⟩

theorem eq_some_of_infixOf {least : Nat} {item : Option Item} {op : BinaryOp}
    (h : infixOf least item = some op) :
    ∃ found, item = some found ∧ found.role = .binary op ∧ least ≤ op.precedence := by
  unfold infixOf at h
  split at h
  · split at h <;> cases h
    exact ⟨_, rfl, rfl, ‹_›⟩
  · cases h

theorem remaining_lt_of_enclose {opener : Item} {inner e : Expr} {s rest : Admission}
    (h : enclose opener inner s = tree e rest) : rest.remaining < s.remaining := by
  obtain ⟨item, behind, taken, found⟩ := ask_eq_tree h
  cases item with
  | none => cases found
  | some item =>
    simp only at found
    split at found <;> cases found
    exact Admission.remaining_lt_of_take taken

theorem remaining_le_of_climb {operand : Nat → Admission → Arrangement} {least : Nat}
    (shorter : ∀ {least s e rest}, operand least s = tree e rest → rest.remaining < s.remaining)
    {steps : Nat} {left : Expr} {s : Admission} {e : Expr} {rest : Admission}
    (h : climb operand least steps left s = tree e rest) : rest.remaining ≤ s.remaining := by
  induction steps generalizing left s with
  | zero => cases h
  | succ steps ih =>
    obtain ⟨item, shown, peeked, found⟩ := ask_eq_tree h
    split at found
    · cases found
      exact Admission.remaining_le_of_peek peeked
    · next op head =>
      obtain ⟨item, rfl, _⟩ := eq_some_of_infixOf head
      obtain ⟨_, behind, taken, more⟩ := ask_eq_tree found
      obtain ⟨right, after, eq, last⟩ := bind_eq_tree more
      have one := remaining_lt_of_peek_take peeked taken
      have two := shorter eq
      have three := ih last
      omega

/-- Every arranged tree has used up tokens. -/
theorem remaining_lt (depth : Nat) :
    (∀ {least s e rest}, binary depth least s = tree e rest → rest.remaining < s.remaining) ∧
    (∀ {s e rest}, unary depth s = tree e rest → rest.remaining < s.remaining) ∧
    (∀ {s e rest}, primary depth s = tree e rest → rest.remaining < s.remaining) := by
  induction depth with
  | zero => exact ⟨fun h => (by cases h), fun h => (by cases h), fun h => (by cases h)⟩
  | succ depth ih =>
    obtain ⟨ih_binary, ih_unary, ih_primary⟩ := ih
    refine ⟨?_, ?_, ?_⟩
    · intro least s e rest h
      obtain ⟨left, behind, eq, more⟩ := bind_eq_tree h
      have first := ih_unary eq
      have second := remaining_le_of_climb ih_binary more
      omega
    · intro s e rest h
      obtain ⟨item, shown, peeked, found⟩ := ask_eq_tree h
      split at found
      · next op head =>
        obtain ⟨item, rfl, _⟩ := eq_some_of_prefixOf head
        obtain ⟨_, behind, taken, more⟩ := ask_eq_tree found
        obtain ⟨operand, after, eq, last⟩ := bind_eq_tree more
        cases last
        have one := remaining_lt_of_peek_take peeked taken
        have two := ih_unary eq
        omega
      · have one := Admission.remaining_le_of_peek peeked
        have two := ih_primary found
        omega
    · intro s e rest h
      obtain ⟨item, behind, taken, found⟩ := ask_eq_tree h
      cases item with
      | none => cases found
      | some item =>
        have one := Admission.remaining_lt_of_take taken
        simp only at found
        split at found
        · cases found
          exact one
        · split at found
          · obtain ⟨inner, after, eq, last⟩ := bind_eq_tree found
            have two := ih_binary eq
            have three := remaining_lt_of_enclose last
            omega
          · cases found

/-! ## Enough calls -/

theorem climb_ne_spent {operand : Nat → Admission → Arrangement} {least : Nat}
    (shorter : ∀ {least s e rest}, operand least s = tree e rest → rest.remaining < s.remaining)
    {steps : Nat} {left : Expr} {s : Admission} (enough : s.remaining < steps)
    (deeper : ∀ least rest, rest.remaining < s.remaining → operand least rest ≠ spent) :
    climb operand least steps left s ≠ spent := by
  induction steps generalizing left s with
  | zero => omega
  | succ steps ih =>
    apply ask_ne_spent
    intro item shown peeked
    split
    · simp
    · next op head =>
      obtain ⟨item, rfl, _⟩ := eq_some_of_infixOf head
      apply ask_ne_spent
      intro answer rest taken
      have one := remaining_lt_of_peek_take peeked taken
      apply bind_ne_spent (deeper _ rest one)
      intro right behind eq
      have two := shorter eq
      exact ih (by omega) fun least behind _ => deeper least behind (by omega)

theorem enclose_ne_spent {opener : Item} {inner : Expr} {s : Admission} :
    enclose opener inner s ≠ spent := by
  apply ask_ne_spent
  intro item rest _
  cases item with
  | none => simp
  | some item =>
    simp only
    split <;> simp [unexpected]

/-- Three calls for each token and three more are always enough. -/
theorem ne_spent (depth : Nat) :
    (∀ least s, 3 * s.remaining + 3 ≤ depth → binary depth least s ≠ spent) ∧
    (∀ s, 3 * s.remaining + 2 ≤ depth → unary depth s ≠ spent) ∧
    (∀ s, 3 * s.remaining + 1 ≤ depth → primary depth s ≠ spent) := by
  induction depth with
  | zero => exact ⟨fun _ _ h => by omega, fun _ h => by omega, fun _ h => by omega⟩
  | succ depth ih =>
    obtain ⟨ih_binary, ih_unary, ih_primary⟩ := ih
    obtain ⟨lt_binary, lt_unary, _⟩ := remaining_lt depth
    refine ⟨?_, ?_, ?_⟩
    · intro least s h
      apply bind_ne_spent (ih_unary s (by omega))
      intro left rest eq
      have := lt_unary eq
      exact climb_ne_spent lt_binary (Nat.lt_succ_self _)
        fun least behind _ => ih_binary least behind (by omega)
    · intro s h
      apply ask_ne_spent
      intro item shown peeked
      split
      · next op head =>
        obtain ⟨item, rfl, _⟩ := eq_some_of_prefixOf head
        apply ask_ne_spent
        intro answer rest taken
        have := remaining_lt_of_peek_take peeked taken
        exact bind_ne_spent (ih_unary rest (by omega)) fun _ _ _ => by simp
      · have := Admission.remaining_le_of_peek peeked
        exact ih_primary shown (by omega)
    · intro s h
      apply ask_ne_spent
      intro item rest taken
      cases item with
      | none => simp
      | some item =>
        have := Admission.remaining_lt_of_take taken
        simp only
        split
        · simp
        · split
          · exact bind_ne_spent (ih_binary 0 rest (by omega)) fun _ _ _ => enclose_ne_spent
          · simp [unexpected]

theorem whole_ne_spent {depth : Nat} {s : Admission} (enough : 3 * s.remaining + 3 ≤ depth) :
    whole depth s ≠ spent := by
  refine bind_ne_spent ((ne_spent depth).1 0 s enough) fun e rest _ =>
    ask_ne_spent fun item done _ => ?_
  cases item <;> simp [unexpected]

/-- The tree or what is wrong. -/
def conclude : (a : Arrangement) → a ≠ spent → Except Diagnostic Expr
  | tree e _, _ => .ok e
  | fault d, _ => .error d
  | stray cause, _ => .error (.grammar cause)
  | spent, h => absurd rfl h

end Arrangement

namespace Admission

/-- The tokens arranged, with as many calls as are always enough. -/
def arrange (s : Admission) : Arrangement := .whole (3 * s.remaining + 3) s

theorem arrange_ne_spent (s : Admission) : s.arrange ≠ .spent :=
  Arrangement.whole_ne_spent (Nat.le_refl _)

/-- The tree of the tokens, or the first fault. -/
def parse (s : Admission) : Except Diagnostic Expr := s.arrange.conclude s.arrange_ne_spent

end Admission

end Criterion
