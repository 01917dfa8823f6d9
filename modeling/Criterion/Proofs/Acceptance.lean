/-
# Criterion.Proofs.Acceptance — when nothing is wrong with a text

The checks of `Context.objection` look at one token and the one before it, at a stack and at three
counters. `Context.Stands` is what these know of the tokens so far: the stance of a reader, the
depth read back from here, the number of operators. Every token that passes the checks keeps it
(`Stands.advance`), and so `verdict_eq_none_iff` can say what a faultless text is without them: its
tokens lead a reader from start to end, each of them is fit for the grammar and stands between
spaces if it has to, they are not too many, and no place among them is too deep.
-/
import Criterion.Proofs.Admission

namespace Criterion

set_option autoImplicit false

/-! ## Checks of one token -/

/-- Of two neighbours exactly one takes the other. -/
theorem Item.misplaced_eq_none_iff (previous : Option Item) (item : Item) :
    item.misplaced previous = none ↔
      (previous.all fun before => before.role.needsRight) ≠ item.role.needsLeft := by
  cases previous with
  | none =>
      simp only [misplaced, Option.all_none]
      cases item.role.needsLeft <;> simp
  | some before =>
      simp only [misplaced, Option.all_some]
      by_cases both : before.role = .opening ∧ item.role = .closing
      · simp [both.1, both.2, Role.needsRight, Role.needsLeft]
      · rw [if_neg both]
        cases before.role.needsRight <;> cases item.role.needsLeft <;> simp

namespace Item

theorem crampedBefore_eq_none_iff (item : Item) :
    item.crampedBefore = none ↔
      ∀ op, item.role = .binary op → item.token.spacedBefore = true := by
  unfold crampedBefore
  cases item.role <;> simp [Role.isBinary]

theorem crampedAfter_eq_none_iff (item : Item) :
    item.crampedAfter = none ↔
      ∀ op, item.role = .binary op → item.token.spacedAfter = true := by
  unfold crampedAfter
  cases item.role <;> simp [Role.isBinary]

theorem foreign_boolean_iff (item : Item) :
    item.foreign .boolean = none ↔
      (∀ n, item.token.word ≠ .number n) ∧ item.role.isLogical = true := by
  unfold foreign
  cases word : item.token.word with
  | number n => simp
  | _ => cases item.role.isLogical <;> simp

/-- A token that the boolean grammar knows is known to every grammar. -/
theorem foreign_eq_none (g : Grammar) {item : Item} (number : ∀ n, item.token.word ≠ .number n)
    (logical : item.role.isLogical = true) : item.foreign g = none := by
  cases g with
  | arithmetic => rfl
  | boolean => exact item.foreign_boolean_iff.2 ⟨number, logical⟩

end Item

theorem Nesting.step_isSome_iff (n : Nesting) (index : Nat) (role : Role) :
    (n.step index role).isSome ↔ ¬ (role = .closing ∧ n.enclosures.length = 0) := by
  cases role with
  | closing => cases h : n.enclosures <;> simp [Nesting.step, h]
  | _ => simp [Nesting.step]

theorem Nesting.length_of_step {n next : Nesting} {index : Nat} {role : Role}
    (h : n.step index role = some next) :
    next.enclosures.length = role.leavesOpen n.enclosures.length := by
  cases role with
  | closing =>
      obtain ⟨enclosures, outer, waiting⟩ := n
      cases enclosures <;> cases h
      rfl
  | _ => cases h; rfl

/-- Behind an operand no prefix operator waits, unless one did before a closing parenthesis. -/
theorem Nesting.waiting_of_step {n next : Nesting} {index : Nat} {role : Role}
    (h : n.step index role = some next) (operand : role.needsRight = false)
    (settled : role = .closing → n.waiting = 0) : next.waiting = 0 := by
  cases role with
  | value => cases h; rfl
  | closing =>
      have none_waits := settled rfl
      obtain ⟨enclosures, outer, waiting⟩ := n
      cases enclosures <;> cases h
      exact none_waits
  | unary | binary | opening => cases operand

/-- An operand or a closing parenthesis is no deeper than the place before it. -/
theorem Nesting.depth_le_of_step {n next : Nesting} {index : Nat} {role : Role}
    (h : n.step index role = some next) (operand : role.needsRight = false) :
    next.depth ≤ n.depth := by
  cases role with
  | value =>
      cases h
      simp only [depth]
      omega
  | closing =>
      obtain ⟨enclosures, outer, waiting⟩ := n
      cases enclosures with
      | nil => cases h
      | cons enclosure rest =>
          cases h
          simp only [depth, List.length_cons]
          omega
  | unary | binary | opening => cases operand

namespace Context

/-- The stance of a reader here. -/
def stance (c : Context) : Stance where
  due := c.previous.all fun before => before.role.needsRight
  opened := c.nesting.enclosures.length

/-- A reader may pass a token that fits its neighbour and closes nothing but what is open. -/
theorem stance_step_isSome_iff (c : Context) (item : Item) :
    (∃ next, c.stance.step item.role = some next) ↔
      (c.nesting.step item.index item.role).isSome ∧ item.misplaced c.previous = none := by
  rw [Nesting.step_isSome_iff, Item.misplaced_eq_none_iff]
  constructor
  · rintro ⟨next, h⟩
    obtain ⟨fits, opens, _⟩ := Stance.step_eq_some_iff.1 h
    exact ⟨opens, fits⟩
  · rintro ⟨opens, fits⟩
    exact ⟨_, Stance.step_eq_some_iff.2 ⟨fits, opens, rfl⟩⟩

/-- What is known of the tokens so far, which have these roles. -/
structure Stands (c : Context) (roles : List Role) : Prop where
  walked : Stance.start.walk roles = some c.stance
  tracks : c.nesting.Tracks roles.reverse
  /-- Only where an operand is due do prefix operators wait for one. -/
  settled : c.stance.due = false → c.nesting.waiting = 0
  shallow : c.nesting.depth ≤ Nesting.limit
  counted : c.operators = roles.countP (· ≠ .value)
  short : c.operators ≤ Admission.maxOperators

theorem stands_start (g : Grammar) : (start g).Stands [] where
  walked := rfl
  tracks := Nesting.outermost_tracks
  settled h := by cases h
  shallow := Nat.zero_le _
  counted := rfl
  short := Nat.zero_le _

section

variable {c : Context} {roles : List Role}

/-- A parenthesis is closed where no prefix operator waits. -/
theorem Stands.settled_of_closing (h : c.Stands roles) {role : Role} {next : Stance}
    (step : c.stance.step role = some next) (closing : role = .closing) :
    c.nesting.waiting = 0 := by
  have fits := (Stance.step_eq_some_iff.1 step).1
  rw [closing] at fits
  exact h.settled (Bool.eq_false_iff.2 fits)

theorem Stands.tracks_step (h : c.Stands roles) {item : Item} {next : Stance} {nesting : Nesting}
    (step : c.stance.step item.role = some next)
    (nested : c.nesting.step item.index item.role = some nesting) :
    nesting.Tracks (roles ++ [item.role]).reverse := by
  rw [List.reverse_concat]
  exact h.tracks.step nested (h.settled_of_closing step)

theorem Stands.misnested_eq_none_iff (h : c.Stands roles) {item : Item} {next : Stance}
    (step : c.stance.step item.role = some next) :
    c.misnested item = none ↔ depthBehind (roles ++ [item.role]) ≤ Nesting.limit := by
  obtain ⟨some_nesting, _⟩ := (c.stance_step_isSome_iff item).1 ⟨next, step⟩
  obtain ⟨nesting, nested⟩ := Option.isSome_iff_exists.1 some_nesting
  rw [misnested, nested, ← (h.tracks_step step nested).depth_eq]
  simp only [ite_eq_right_iff, reduceCtorEq, imp_false, Nat.not_lt]

theorem Stands.overlong_eq_none_iff (h : c.Stands roles) (item : Item) :
    c.overlong item = none ↔
      (roles ++ [item.role]).countP (· ≠ .value) ≤ Admission.maxOperators := by
  have short := h.short
  rw [overlong, List.countP_append, ← h.counted, List.countP_singleton]
  by_cases value : item.role = .value
  · simp [value, short]
  · simp [value]

/-- The checks of one token, said of all tokens up to it. -/
theorem Stands.objection_eq_none_iff (h : c.Stands roles) (token : Token) :
    c.objection token = none ↔
      (∀ before, c.previous = some before → before.crampedAfter = none) ∧
      (c.item token).foreign c.grammar = none ∧ (c.item token).crampedBefore = none ∧
      (∃ next, c.stance.step (c.item token).role = some next) ∧
      depthBehind (roles ++ [(c.item token).role]) ≤ Nesting.limit ∧
      (roles ++ [(c.item token).role]).countP (· ≠ .value) ≤ Admission.maxOperators := by
  have cramped : c.previous.bind Item.crampedAfter = none ↔
      ∀ before, c.previous = some before → before.crampedAfter = none := by
    rw [Option.bind_eq_none_iff]
  simp only [objection, unfit, Option.or_eq_none_iff, h.overlong_eq_none_iff, cramped]
  constructor
  · rintro ⟨behind, foreign, before, nested, short, placed⟩
    have known := Option.isSome_iff_exists.2 (exists_step_of_misnested nested)
    obtain ⟨next, step⟩ := (c.stance_step_isSome_iff (c.item token)).2 ⟨known, placed⟩
    exact ⟨behind, foreign, before, ⟨next, step⟩, (h.misnested_eq_none_iff step).1 nested, short⟩
  · rintro ⟨behind, foreign, before, ⟨next, step⟩, shallow, short⟩
    obtain ⟨_, placed⟩ := (c.stance_step_isSome_iff (c.item token)).1 ⟨next, step⟩
    exact ⟨behind, foreign, before, (h.misnested_eq_none_iff step).2 shallow, short, placed⟩

theorem Stands.stance_advance (h : c.Stands roles) {token : Token}
    (clear : c.objection token = none) :
    c.stance.step (c.item token).role = some (c.advance token).stance := by
  obtain ⟨_, _, _, ⟨next, step⟩, _⟩ := (h.objection_eq_none_iff token).1 clear
  obtain ⟨fits, opens, rfl⟩ := Stance.step_eq_some_iff.1 step
  rw [step, stance, stance, Nesting.length_of_step (step_of_clear clear)]
  rfl

/-- A token that passes the checks leaves everything known of one token more. -/
theorem Stands.advance (h : c.Stands roles) {token : Token} (clear : c.objection token = none) :
    (c.advance token).Stands (roles ++ [(c.item token).role]) := by
  have step := h.stance_advance clear
  obtain ⟨_, _, _, _, shallow, short⟩ := (h.objection_eq_none_iff token).1 clear
  have nested := step_of_clear clear
  have tracks := h.tracks_step step nested
  have counted : (c.advance token).operators =
      (roles ++ [(c.item token).role]).countP (· ≠ .value) := by
    rw [List.countP_append, ← h.counted, List.countP_singleton, Context.advance]
    by_cases value : (c.item token).role = .value <;> simp [value]
  refine ⟨?_, tracks, ?_, ?_, counted, counted ▸ short⟩
  · rw [Stance.walk_append, h.walked, Option.bind_some, Stance.walk_cons, step]
    rfl
  · intro due
    exact Nesting.waiting_of_step nested due (h.settled_of_closing step)
  · rw [tracks.depth_eq]
    exact shallow

/-! ## All tokens -/

theorem unfinished_eq_none_iff (c : Context) (length : Nat) :
    c.unfinished length = none ↔ c.stance = .done := by
  unfold unfinished
  cases last : c.previous with
  | none => simp [stance, last, Stance.done]
  | some before =>
      cases right : before.role.needsRight <;> simp [stance, last, Stance.done, right]

theorem ending_eq_none_iff (c : Context) (length : Nat) (fault : Option LexicalFault) :
    c.ending length fault = none ↔
      (∀ before, c.previous = some before → before.crampedAfter = none) ∧ fault = none ∧
        c.stance = .done := by
  rw [ending, Option.or_eq_none_iff, Option.or_eq_none_iff, Option.map_eq_none_iff,
    Option.map_eq_none_iff, Option.map_eq_none_iff, Option.bind_eq_none_iff,
    unfinished_eq_none_iff]

/-- Nothing is wrong with tokens, where `fault` follows them: what has to hold of all of them. -/
structure Faultless (c : Context) (roles : List Role) (fault : Option LexicalFault)
    (items : List Item) : Prop where
  readable : fault = none
  walked : c.stance.walk (items.map Item.role) = some .done
  known : ∀ item ∈ items, item.foreign c.grammar = none
  before : ∀ item ∈ items, item.crampedBefore = none
  behind : ∀ item ∈ c.previous.toList ++ items, item.crampedAfter = none
  short : (roles ++ items.map Item.role).countP (· ≠ .value) ≤ Admission.maxOperators
  shallow : ∀ more, more <+: items.map Item.role → depthBehind (roles ++ more) ≤ Nesting.limit

theorem Stands.shallow_here (h : c.Stands roles) : depthBehind roles ≤ Nesting.limit :=
  h.tracks.depth_eq ▸ h.shallow

theorem Faultless.objection_eq_none {fault : Option LexicalFault} {token : Token}
    {items : List Item} (h : c.Stands roles)
    (clear : c.Faultless roles fault (c.item token :: items)) : c.objection token = none := by
  obtain ⟨_, walked, known, before, behind, short, shallow⟩ := clear
  refine (h.objection_eq_none_iff token).2
    ⟨fun last found => behind last ?_, known _ (.head _), before _ (.head _), ?_, ?_, ?_⟩
  · rw [found]
    exact .head _
  · rw [List.map_cons, Stance.walk_cons, Option.bind_eq_some_iff] at walked
    obtain ⟨next, step, _⟩ := walked
    exact ⟨next, step⟩
  · exact shallow [_] (by simp)
  · refine Nat.le_trans ?_ short
    rw [List.map_cons, List.append_cons roles _ (items.map Item.role)]
    exact (List.sublist_append_left _ _).countP_le

/-- Behind a token that passes the checks, the same has to hold of the tokens that are left. -/
theorem Stands.faultless_cons_iff (h : c.Stands roles) {token : Token}
    (clear : c.objection token = none) (fault : Option LexicalFault) (items : List Item) :
    c.Faultless roles fault (c.item token :: items) ↔
      (c.advance token).Faultless (roles ++ [(c.item token).role]) fault items := by
  have step := h.stance_advance clear
  obtain ⟨last, known, before, _, _, _⟩ := (h.objection_eq_none_iff token).1 clear
  have walk : c.stance.walk ((c.item token :: items).map Item.role) =
      (c.advance token).stance.walk (items.map Item.role) := by
    rw [List.map_cons, Stance.walk_cons, step, Option.bind_some]
  have assoc (more : List Role) :
      roles ++ (c.item token).role :: more = roles ++ [(c.item token).role] ++ more :=
    List.append_cons _ _ _
  constructor
  · rintro ⟨readable, walked, knowns, befores, behinds, short, shallow⟩
    refine ⟨readable, walk ▸ walked, fun item mem => knowns item (.tail _ mem),
      fun item mem => befores item (.tail _ mem),
      fun item mem => behinds item (List.mem_append_right _ mem), ?_, fun more le => ?_⟩
    · rw [List.map_cons, assoc] at short
      exact short
    · rw [← assoc]
      exact shallow _ (List.prefix_cons_iff.2 (.inr ⟨more, rfl, le⟩))
  · rintro ⟨readable, walked, knowns, befores, behinds, short, shallow⟩
    refine ⟨readable, walk ▸ walked, List.forall_mem_cons.2 ⟨known, knowns⟩,
      List.forall_mem_cons.2 ⟨before, befores⟩, fun item mem => ?_, ?_, fun more le => ?_⟩
    · rcases List.mem_append.1 mem with mem | mem
      · exact last item (Option.mem_toList.1 mem)
      · exact behinds item mem
    · rw [List.map_cons, assoc]
      exact short
    · rcases List.prefix_cons_iff.1 le with rfl | ⟨rest, rfl, inside⟩
      · rw [List.append_nil]
        exact h.shallow_here
      · rw [assoc]
        exact shallow rest inside

theorem Stands.faultless_nil_iff (h : c.Stands roles) (length : Nat)
    (fault : Option LexicalFault) :
    c.Faultless roles fault [] ↔ c.ending length fault = none := by
  rw [ending_eq_none_iff]
  constructor
  · rintro ⟨readable, walked, _, _, behind, _, _⟩
    refine ⟨fun last found => behind last ?_, readable, Option.some.inj walked⟩
    rw [found]
    exact .head _
  · rintro ⟨behind, readable, done⟩
    refine ⟨readable, congrArg some done, fun _ mem => (by cases mem), fun _ mem => (by cases mem),
      fun item mem => ?_, ?_, fun more le => ?_⟩
    · rw [List.append_nil] at mem
      exact behind item (Option.mem_toList.1 mem)
    · rw [List.map_nil, List.append_nil, ← h.counted]
      exact h.short
    · rw [List.prefix_nil.1 le, List.append_nil]
      exact h.shallow_here

/-- The verdict on tokens is about all of them at once. -/
theorem Stands.verdict_eq_none_iff (h : c.Stands roles) (length : Nat)
    (fault : Option LexicalFault) (tokens : List Token) :
    c.verdict length fault tokens = none ↔
      c.Faultless roles fault (Item.inOrder (c.previous.map Item.role) tokens) := by
  induction tokens generalizing c roles with
  | nil => exact (h.faultless_nil_iff length fault).symm
  | cons token rest ih =>
      have head : Item.inOrder (c.previous.map Item.role) (token :: rest) =
          c.item token :: Item.inOrder ((c.advance token).previous.map Item.role) rest := rfl
      rw [head, verdict]
      cases objection : c.objection token with
      | some cause =>
          refine ⟨fun none => (by cases none), fun clear => ?_⟩
          rw [Faultless.objection_eq_none h clear] at objection
          cases objection
      | none =>
          rw [h.faultless_cons_iff objection]
          exact ih (h.advance objection)

/-- The tokens that are granted lead a reader on, and to the end if nothing is wrong. -/
theorem Stands.walk_granted (h : c.Stands roles) (length : Nat) (fault : Option LexicalFault)
    (tokens : List Token) :
    ∃ last, c.stance.walk ((c.granted tokens).map Item.role) = some last ∧
      (c.verdict length fault tokens = none → last = .done) := by
  induction tokens generalizing c roles with
  | nil => exact ⟨c.stance, rfl, fun none => ((ending_eq_none_iff c length fault).1 none).2.2⟩
  | cons token rest ih =>
      rw [granted, verdict]
      cases objection : c.objection token with
      | some cause => exact ⟨c.stance, rfl, fun none => (by cases none)⟩
      | none =>
          obtain ⟨last, walked, done⟩ := ih (h.advance objection)
          refine ⟨last, ?_, done⟩
          simp only [List.map_cons, Stance.walk_cons, h.stance_advance objection, Option.bind_some]
          exact walked

end

/-- The tokens granted are the first ones, in their roles. -/
theorem granted_isPrefix (c : Context) (tokens : List Token) :
    c.granted tokens <+: Item.inOrder (c.previous.map Item.role) tokens := by
  induction tokens generalizing c with
  | nil => exact List.nil_prefix
  | cons token rest ih =>
      rw [granted]
      cases c.objection token with
      | some cause => exact List.nil_prefix
      | none => exact (List.prefix_cons_inj _).2 (ih (c.advance token))

theorem granted_of_verdict {c : Context} {length : Nat} {fault : Option LexicalFault}
    {tokens : List Token} (h : c.verdict length fault tokens = none) :
    c.granted tokens = Item.inOrder (c.previous.map Item.role) tokens := by
  induction tokens generalizing c with
  | nil => rfl
  | cons token rest ih =>
      rw [verdict] at h
      rw [granted]
      cases objection : c.objection token with
      | some cause =>
          rw [objection] at h
          cases h
      | none =>
          rw [objection] at h
          exact congrArg _ (ih h)

/-- What is faultless is read to its end. -/
theorem readable_of_verdict {c : Context} {length : Nat} {fault : Option LexicalFault}
    {tokens : List Token} (clear : c.verdict length fault tokens = none) : fault = none := by
  induction tokens generalizing c with
  | nil => exact ((c.ending_eq_none_iff length fault).1 clear).2.1
  | cons token rest ih =>
      rw [verdict] at clear
      split at clear
      · cases clear
      · exact ih clear

end Context

end Criterion
