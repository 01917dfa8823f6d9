/-
# Criterion.Proofs.Descent — how many calls are active at once

Climbing calls itself for the operand of a prefix operator, for what stands to the right of a binary
operator, and for what stands in parentheses. Each of these makes the place deeper, but for the
second, which asks for a tighter layer instead. So what calls are active at a place is bounded by its
depth: at a level of parentheses there are at most seven calls for operators, one for each layer and
one behind the last, and one each for prefix operators and for the core; and a prefix operator that
waits has one call more. At a depth of 64 these are `9 * 65 = 585` calls.

Depth is counted by the admission, which is a token ahead of the calls. It is therefore read back here
from the tokens that have been handed out (`depthBehind`), and none of those that are left to hand out
makes it exceed the limit (`Shallow`). A call for operators begins a level of its own or goes on with
one, whatever prefix operators stand before it; `levelBehind` is the depth that does not count them.

* `call_ne_spent`: a call that may go on as deep as the place allows is not cut short.
* `whole_of_le`: a call that is not cut short answers the same if it may go deeper.
* `parse_depth`: a text is parsed with 585 calls as it is without a bound.
-/
import Criterion.Proofs.Parse
import Criterion.Proofs.Reach

namespace Criterion

set_option autoImplicit false

/-! ## The depth of a level -/

/-- How deep the innermost open parenthesis before a place is, or the text if none is open. Prefix
operators that stand directly before the place do not count. -/
def levelBehind (roles : List Role) : Nat := unclosed roles + pendingBack 0 false roles.reverse

section

variable (before : List Role)

theorem levelBehind_le_depthBehind : levelBehind before ≤ depthBehind before :=
  Nat.add_le_add_left (pendingBack_false_le 0 true _) _

theorem levelBehind_opening : levelBehind (before ++ [.opening]) = depthBehind before + 1 := by
  simp only [levelBehind, depthBehind, unclosed, pending, List.reverse_concat, unclosedBack,
    pendingBack]
  omega

/-- Behind a binary operator no prefix operator waits. -/
theorem levelBehind_eq_depthBehind (op : BinaryOp) :
    levelBehind (before ++ [.binary op]) = depthBehind (before ++ [.binary op]) := by
  simp only [levelBehind, depthBehind, pending, List.reverse_concat, pendingBack]

/-- What stands to the right of a binary operator is on the level of its left operand. -/
theorem Derives.levelBehind_binary {used : List Role} (h : Derives used) (op : BinaryOp) :
    levelBehind (before ++ (used ++ [.binary op])) = levelBehind before := by
  obtain ⟨opened, waiting⟩ := h.readBack before.reverse 0
  have split : (before ++ (used ++ [Role.binary op])).reverse =
      .binary op :: (used.reverse ++ before.reverse) := by simp
  simp only [levelBehind, unclosed, split, unclosedBack, pendingBack, opened, waiting]

end

section

variable {limit : Nat} {before xs ys : List Role}

theorem Shallow.front (h : Shallow limit before (xs ++ ys)) : Shallow limit before xs := by
  intro more le
  exact h more (le.trans (List.prefix_append xs ys))

/-- Behind tokens that have been handed out, no place is deeper than it was. -/
theorem Shallow.behind (h : Shallow limit before (xs ++ ys)) : Shallow limit (before ++ xs) ys := by
  intro more le
  rw [List.append_assoc]
  exact h (xs ++ more) ((List.prefix_append_right_inj xs).2 le)

end

/-- No place among the tokens that are granted is too deep. -/
theorem Context.Stands.shallow_granted {c : Context} {roles : List Role} (h : c.Stands roles)
    (tokens : List Token) : Shallow Nesting.limit roles ((c.granted tokens).map Item.role) := by
  induction tokens generalizing c roles with
  | nil =>
      intro more le
      rw [List.prefix_nil.1 le, List.append_nil]
      exact h.shallow_here
  | cons token rest ih =>
      intro more le
      rw [granted] at le
      cases objection : c.objection token with
      | some cause =>
          rw [objection] at le
          rw [List.prefix_nil.1 le, List.append_nil]
          exact h.shallow_here
      | none =>
          rw [objection] at le
          rcases List.prefix_cons_iff.1 le with rfl | ⟨inner, rfl, inside⟩
          · rw [List.append_nil]
            exact h.shallow_here
          · rw [List.append_cons]
            exact ih (h.advance objection) inner inside

/-! ## Calls that are not cut short -/

namespace Arrangement

/-- The tokens that are left lead a reader on from an operand that is due or not, and none of them is
too deep behind those that have been handed out. -/
structure Open (s : Admission) (due : Bool) (before : List Role) : Prop where
  viable : ∃ n, s.admitted.Viable ⟨due, n⟩
  shallow : Shallow 64 before (s.admitted.items.map Item.role)

namespace Open

variable {s rest : Admission} {due : Bool} {before : List Role}

theorem congr (h : Open s due before) (same : rest.admitted = s.admitted) :
    Open rest due before := by
  obtain ⟨viable, shallow⟩ := h
  exact ⟨same ▸ viable, same ▸ shallow⟩

/-- One token is handed out. -/
theorem uncons (h : Open s due before) {item : Item}
    (cons : s.admitted = rest.admitted.cons item) :
    (∃ previous, item.role = Role.ofWord previous item.token.word) ∧
      Open rest item.role.needsRight (before ++ [item.role]) := by
  obtain ⟨⟨n, viable⟩, shallow⟩ := h
  rw [cons] at viable shallow
  obtain ⟨worded, next, step, viable⟩ := viable.uncons
  obtain ⟨_, _, rfl⟩ := Stance.step_eq_some_iff.1 step
  rw [Admitted.cons, List.map_cons, ← List.singleton_append] at shallow
  exact ⟨worded, ⟨_, viable⟩, shallow.behind⟩

/-- An operand is handed out. -/
theorem operand (h : Open s true before) {m : Nat} {used : List Item} {e : Expr}
    (items : s.admitted.items = used ++ rest.admitted.items) (n : Nat)
    (operand : Operand m n used e rest.admitted) :
    Derives (used.map Item.role) ∧ Open rest false (before ++ used.map Item.role) := by
  have shallow := h.shallow
  rw [items, List.map_append] at shallow
  exact ⟨operand.1.derives, ⟨n, operand.2⟩, shallow.behind⟩

end Open

/-- The calls that a call for layer `m` needs on its level. -/
def callsFor (m level : Nat) : Nat := 9 * (64 - level) + (9 - m)

/-- The loop is not cut short if the operands on its level are not: they are of tighter layers. -/
theorem climb_ne_spent_of_open {operand : Nat → Admission → Arrangement}
    (shorter : ∀ {least s e rest}, operand least s = tree e rest → rest.remaining < s.remaining)
    (right : ∀ {least m n : Nat} {s : Admission}, Floor least m → m ≤ 6 →
      s.admitted.Viable ⟨true, n⟩ → (operand least s).Answers s.admitted fun used e rest =>
        Operand m n used e rest ∧ rest.Ended m)
    {least m : Nat} {before : List Role} (level : Floor least m)
    (deeper : ∀ (op : BinaryOp) (before' : List Role) (s : Admission), m ≤ op.layer →
      levelBehind before' = levelBehind before → Open s true before' →
      operand (op.precedence + 1) s ≠ spent)
    {steps : Nat} {left : Expr} {used : List Role} {s : Admission} (enough : s.remaining < steps)
    (derives : Derives used) (opened : Open s false (before ++ used)) :
    climb operand least steps left s ≠ spent := by
  induction steps generalizing left used s with
  | zero => omega
  | succ steps ih =>
      apply ask_ne_spent
      intro item shown peeked
      split
      · simp
      · next op head =>
          obtain ⟨item, rfl, role, le⟩ := eq_some_of_infixOf head
          apply ask_ne_spent
          intro answer rest taken
          have one := remaining_lt_of_peek_take peeked taken
          have shown_first := Admission.admitted_of_item (take_of_peek_take peeked taken)
          obtain ⟨_, opened⟩ := opened.uncons shown_first
          rw [role, List.append_assoc] at opened
          have same := derives.levelBehind_binary before op
          apply bind_ne_spent (deeper op _ rest ((level op).1 le) same opened)
          intro operand_tree behind eq
          have two := shorter eq
          obtain ⟨n, viable⟩ := opened.viable
          have answer := right (floor_succ op) op.layer_lt viable
          rw [eq] at answer
          obtain ⟨more, items, _, ⟨holds, _⟩⟩ := answer
          obtain ⟨derives', opened⟩ := opened.operand items n holds
          rw [List.append_assoc, List.append_assoc, List.singleton_append] at opened
          exact ih (by omega) (.binary derives derives') opened

/-- A call with room for as many as its place allows is not cut short. -/
theorem call_ne_spent (depth : Nat) :
    (∀ {least m : Nat} {before : List Role} {s : Admission}, Floor least m → m ≤ 6 →
      Open s true before → callsFor m (levelBehind before) ≤ depth →
      binary depth least s ≠ spent) ∧
    (∀ {before : List Role} {s : Admission}, Open s true before →
      9 * (64 - depthBehind before) + 2 ≤ depth → unary depth s ≠ spent) ∧
    (∀ {before : List Role} {s : Admission}, Open s true before →
      9 * (64 - depthBehind before) + 1 ≤ depth → primary depth s ≠ spent) := by
  induction depth with
  | zero =>
      simp only [callsFor]
      exact ⟨fun _ _ _ _ => by omega, fun _ _ => by omega, fun _ _ => by omega⟩
  | succ depth ih =>
      obtain ⟨ih_binary, ih_unary, ih_primary⟩ := ih
      obtain ⟨right, operand, _⟩ := call_answers depth
      obtain ⟨shorter, _, _⟩ := remaining_lt depth
      refine ⟨?_, ?_, ?_⟩
      · intro least m before s level bound opened room
        simp only [callsFor] at room ih_binary
        have no_higher := levelBehind_le_depthBehind before
        apply bind_ne_spent (ih_unary opened (by omega))
        intro left rest eq
        obtain ⟨n, viable⟩ := opened.viable
        have answer := operand viable
        rw [eq] at answer
        obtain ⟨used, items, _, holds⟩ := answer
        obtain ⟨derives, opened⟩ := opened.operand items n holds
        refine climb_ne_spent_of_open shorter right level ?_ (Nat.lt_succ_self _) derives opened
        intro op before' s' tighter same opened'
        have last := op.layer_lt
        refine ih_binary (floor_succ op) last opened' ?_
        rw [same]
        omega
      · intro before s opened room
        apply ask_ne_spent
        intro item shown peeked
        split
        · next op head =>
            obtain ⟨item, rfl, role⟩ := eq_some_of_prefixOf head
            apply ask_ne_spent
            intro answer rest taken
            have shown_first := Admission.admitted_of_item (take_of_peek_take peeked taken)
            obtain ⟨_, opened⟩ := opened.uncons shown_first
            rw [role] at opened
            have here := opened.shallow.here
            rw [depthBehind_unary] at here
            refine bind_ne_spent (ih_unary opened ?_) fun _ _ _ => by simp
            rw [depthBehind_unary]
            omega
        · have same := (Admission.admitted_of_peek peeked).1
          exact ih_primary (opened.congr same) (by omega)
      · intro before s opened room
        apply ask_ne_spent
        intro item rest taken
        cases item with
        | none => simp
        | some item =>
            simp only
            split
            · simp
            · split
              · next word =>
                  obtain ⟨⟨previous, worded⟩, opened⟩ :=
                    opened.uncons (Admission.admitted_of_item taken)
                  have role : item.role = .opening := by rw [worded, word]; rfl
                  rw [role] at opened
                  have here := opened.shallow.here
                  rw [depthBehind_opening] at here
                  refine bind_ne_spent (ih_binary floor_zero (Nat.zero_le 6) opened ?_)
                    fun _ _ _ => enclose_ne_spent
                  rw [callsFor, levelBehind_opening]
                  omega
              · simp [unexpected]

/-! ## Calls that may go deeper -/

section

variable {next next' : Expr → Admission → Arrangement}

theorem bind_congr_of_ne_spent {a a' : Arrangement} (h : a.bind next ≠ spent)
    (first : a ≠ spent → a' = a)
    (second : ∀ e rest, next e rest ≠ spent → next' e rest = next e rest) :
    a'.bind next' = a.bind next := by
  cases a with
  | tree e rest =>
      rw [first (by simp)]
      exact second e rest h
  | fault d => rw [first (by simp)]; rfl
  | stray cause => rw [first (by simp)]; rfl
  | spent => exact absurd rfl h

theorem ask_congr_of_ne_spent {reply : Admission.Reply}
    {next next' : Option Item → Admission → Arrangement} (h : ask reply next ≠ spent)
    (second : ∀ item rest, next item rest ≠ spent → next' item rest = next item rest) :
    ask reply next' = ask reply next := by
  rcases reply with ⟨d | item, rest⟩
  · rfl
  · exact second item rest h

end

theorem climb_congr_of_ne_spent {operand operand' : Nat → Admission → Arrangement}
    (deeper : ∀ least s, operand least s ≠ spent → operand' least s = operand least s)
    {least steps : Nat} {left : Expr} {s : Admission}
    (h : climb operand least steps left s ≠ spent) :
    climb operand' least steps left s = climb operand least steps left s := by
  induction steps generalizing left s with
  | zero => exact absurd rfl h
  | succ steps ih =>
      refine ask_congr_of_ne_spent h fun item shown h => ?_
      split at h
      · rfl
      · exact ask_congr_of_ne_spent h fun _ rest h =>
          bind_congr_of_ne_spent h (deeper _ rest) fun right behind h => ih h

/-- One call more does not matter where none was missing. -/
theorem succ_of_ne_spent (depth : Nat) :
    (∀ least s, binary depth least s ≠ spent →
      binary (depth + 1) least s = binary depth least s) ∧
    (∀ s, unary depth s ≠ spent → unary (depth + 1) s = unary depth s) ∧
    (∀ s, primary depth s ≠ spent → primary (depth + 1) s = primary depth s) := by
  induction depth with
  | zero =>
      exact ⟨fun _ _ h => absurd rfl h, fun _ h => absurd rfl h, fun _ h => absurd rfl h⟩
  | succ depth ih =>
      obtain ⟨ih_binary, ih_unary, ih_primary⟩ := ih
      refine ⟨?_, ?_, ?_⟩
      · intro least s h
        exact bind_congr_of_ne_spent h (ih_unary s) fun left rest h =>
          climb_congr_of_ne_spent ih_binary h
      · intro s h
        refine ask_congr_of_ne_spent h fun item shown h => ?_
        split at h
        · exact ask_congr_of_ne_spent h fun _ rest h =>
            bind_congr_of_ne_spent h (ih_unary rest) fun _ _ _ => rfl
        · exact ih_primary shown h
      · intro s h
        refine ask_congr_of_ne_spent h fun item rest h => ?_
        cases item with
        | none => rfl
        | some item =>
            simp only at h ⊢
            split at h
            · rfl
            · by_cases word : item.token.word = .openParen
              · simp only [if_pos word] at h ⊢
                exact bind_congr_of_ne_spent h (ih_binary 0 rest) fun _ _ _ => rfl
              · simp only [if_neg word]

theorem whole_of_le {depth depth' : Nat} {s : Admission} (h : whole depth s ≠ spent)
    (le : depth ≤ depth') : whole depth' s = whole depth s := by
  induction le with
  | refl => rfl
  | @step depth' le ih =>
      rw [← ih] at h ⊢
      exact bind_congr_of_ne_spent h ((succ_of_ne_spent depth').1 0 s) fun _ _ _ => rfl

end Arrangement

/-! ## Texts -/

theorem Admission.open_start (g : Grammar) (p : Punctuation) (source : String) :
    Arrangement.Open (start g p source) true [] := by
  refine ⟨⟨0, viable_start g p source⟩, ?_⟩
  rw [admitted_start]
  exact (Context.stands_start g).shallow_granted _

namespace Formula

/-- No text needs more than 585 calls at once. -/
theorem whole_ne_spent (g : Grammar) (p : Punctuation) (source : String) :
    Arrangement.whole 585 (Admission.start g p source) ≠ .spent := by
  have opened := Admission.open_start g p source
  have call := (Arrangement.call_ne_spent 585).1 Arrangement.floor_zero (Nat.zero_le 6) opened
    (by decide)
  refine Arrangement.bind_ne_spent call fun e rest _ =>
    Arrangement.ask_ne_spent fun item done _ => ?_
  cases item <;> simp [Arrangement.unexpected]

/-- With 585 calls at once every text is parsed as it is with any greater number of them, and so as
it is without a bound. -/
theorem parse_depth (g : Grammar) (p : Punctuation) (source : String) (depth : Nat)
    (enough : 585 ≤ depth) :
    ∃ bounded : Arrangement.whole depth (Admission.start g p source) ≠ .spent,
      (Arrangement.whole depth (Admission.start g p source)).conclude bounded = parse g p source := by
  have never := whole_ne_spent g p source
  have same := Arrangement.whole_of_le never enough
  have bounded : Arrangement.whole depth (Admission.start g p source) ≠ .spent := same ▸ never
  refine ⟨bounded, ?_⟩
  have arranged : (Admission.start g p source).arrange =
      Arrangement.whole depth (Admission.start g p source) := by
    rcases Nat.le_total depth (3 * (Admission.start g p source).remaining + 3) with le | le
    · exact Arrangement.whole_of_le bounded le
    · exact (Arrangement.whole_of_le (Admission.start g p source).arrange_ne_spent le).symm
  show _ = (Admission.start g p source).arrange.conclude _
  simp only [arranged]

/-- Prefix operators, a parenthesis and operators of rising layers. -/
theorem parse_depth_rising : 585 ≤ 600 ∧
    ∃ bounded : Arrangement.whole 600 (Admission.start .arithmetic .standard "!-(a || 1 < b)")
        ≠ .spent,
      (Arrangement.whole 600 (Admission.start .arithmetic .standard "!-(a || 1 < b)")).conclude
          bounded =
        .ok (.unary .not (.unary .negate
          (.binary .or (.var "a") (.binary .less (.number 1) (.var "b"))))) := by
  obtain ⟨bounded, same⟩ := parse_depth .arithmetic .standard "!-(a || 1 < b)" 600 (by decide)
  refine ⟨by decide, bounded, same.trans ?_⟩
  exact eq_ok_of_toOption (by decide +kernel)

/-- Two levels can take all of their 18 calls. -/
example : (Arrangement.whole 17 (Admission.start .arithmetic .standard
      "a || b && c == d < e + f * (a || b && c == d < e + f * g)")) = .spent ∧
    (Arrangement.whole 18 (Admission.start .arithmetic .standard
      "a || b && c == d < e + f * (a || b && c == d < e + f * g)")) ≠ .spent := by
  decide +kernel

end Formula

end Criterion
