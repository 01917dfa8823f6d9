/-
# Criterion.Proofs.Admission — what is admitted, said of the tokens

An admission reads one token after the other and keeps what the next check needs. Here the same is
said of the list of tokens: `Context.objection` is the first of the checks that a token fails where
it stands, `Context.advance` what is known behind a token that passes them all, and
`Context.verdict` the first fault of all the tokens and of the end behind them. `admitted_eq` says
that this is what handing the tokens out one by one comes to.

A token that passes leaves the `Stance` of a reader and the depth read back from it as they should
be (`Context.Stands.advance`), and from there `verdict_eq_none_iff` says that nothing is wrong with a
text exactly if seven things hold of it, each of them about all of its tokens at once.
-/
import Criterion.Admission
import Criterion.Proofs.Depth
import Criterion.Proofs.Derivation

namespace Criterion

set_option autoImplicit false

namespace Context

/-! ## The checks -/

/-- A token in the role that it has here. -/
def item (c : Context) (token : Token) : Item :=
  ⟨Role.ofWord (c.previous.map Item.role) token.word, token⟩

/-- A token that closes nothing or lies too deep. -/
def misnested (c : Context) (item : Item) : Option GrammarFault :=
  match c.nesting.step item.index item.role with
  | none => some (.unmatched item.index)
  | some nesting =>
      if Nesting.limit < nesting.depth then some (.tooDeep Nesting.limit item.index) else none

/-- An operator or parenthesis beyond the limit. -/
def overlong (c : Context) (item : Item) : Option GrammarFault :=
  if item.role ≠ .value ∧ Admission.maxOperators < c.operators + 1 then
    some (.tooLong Admission.maxOperators item.index)
  else none

/-- The first thing that is wrong with a token in its role. -/
def unfit (c : Context) (item : Item) : Option GrammarFault :=
  (item.foreign c.grammar).or <| item.crampedBefore.or <| (c.misnested item).or <|
    (c.overlong item).or <| item.misplaced c.previous

/-- The first thing that is wrong with a token here; what the token before it lacks comes first. -/
def objection (c : Context) (token : Token) : Option GrammarFault :=
  (c.previous.bind Item.crampedAfter).or (c.unfit (c.item token))

/-- What is known behind a token that nothing is wrong with. -/
def advance (c : Context) (token : Token) : Context where
  grammar := c.grammar
  previous := some (c.item token)
  nesting := (c.nesting.step (c.item token).index (c.item token).role).getD c.nesting
  operators := if (c.item token).role = .value then c.operators else c.operators + 1

/-- What is left of the context behind an item that is refused. The item does not become the last
one, but it may have been counted, and what it opens or closes may have been opened or closed. -/
structure Jolted (c : Context) (item : Item) (left : Context) : Prop where
  grammar : left.grammar = c.grammar
  previous : left.previous = c.previous
  nesting : left.nesting = c.nesting ∨ c.nesting.step item.index item.role = some left.nesting
  operators : left.operators = c.operators ∨ left.operators = c.operators + 1

/-- What is wrong with a text that ends here, where `fault` follows the last token. -/
def ending (c : Context) (length : Nat) (fault : Option LexicalFault) : Option Diagnostic :=
  ((c.previous.bind Item.crampedAfter).map Diagnostic.grammar).or <|
    (fault.map Diagnostic.lexical).or <| (c.unfinished length).map Diagnostic.grammar

/-- The tokens before the first that something is wrong with, in their roles. -/
def granted (c : Context) : List Token → List Item
  | [] => []
  | token :: rest =>
      match c.objection token with
      | some _ => []
      | none => c.item token :: (c.advance token).granted rest

/-- The first thing that is wrong with a text that goes on with these tokens. -/
def verdict (c : Context) (length : Nat) (fault : Option LexicalFault) :
    List Token → Option Diagnostic
  | [] => c.ending length fault
  | token :: rest =>
      match c.objection token with
      | some cause => some (.grammar cause)
      | none => (c.advance token).verdict length fault rest

/-- A token that is not misnested has a nesting behind it. -/
theorem exists_step_of_misnested {c : Context} {item : Item} (h : c.misnested item = none) :
    ∃ nesting, c.nesting.step item.index item.role = some nesting := by
  unfold misnested at h
  cases step : c.nesting.step item.index item.role with
  | none =>
      rw [step] at h
      cases h
  | some nesting => exact ⟨nesting, rfl⟩

section

variable {c : Context} {token : Token}

theorem step_of_clear (clear : c.objection token = none) :
    c.nesting.step (c.item token).index (c.item token).role = some (c.advance token).nesting := by
  simp only [objection, unfit, Option.or_eq_none_iff] at clear
  obtain ⟨_, _, _, nested, _⟩ := clear
  obtain ⟨nesting, step⟩ := exists_step_of_misnested nested
  rw [advance, step, Option.getD_some]

theorem operators_lt_of_clear (clear : c.objection token = none)
    (operator : (c.item token).role ≠ .value) : c.operators < Admission.maxOperators := by
  simp only [objection, unfit, Option.or_eq_none_iff] at clear
  obtain ⟨_, _, _, _, short, _⟩ := clear
  refine Nat.lt_of_not_le fun beyond => ?_
  rw [overlong, if_pos ⟨operator, Nat.lt_succ_of_le beyond⟩] at short
  cases short

end

end Context

/-! ## Which check a fault comes from -/

/-- A token is checked when it is read, and once more before the next one is; the end is checked when
no token is left. -/
inductive Check where
  | token
  | behind
  | ending
deriving DecidableEq, Repr

def GrammarFault.check : GrammarFault → Check
  | crampedAfter _ _ => .behind
  | empty | openEnd _ _ | unclosed _ => .ending
  | _ => .token

section

variable {c : Context} {item : Item} {cause : GrammarFault}

theorem Item.check_of_foreign {g : Grammar} (h : item.foreign g = some cause) :
    cause.check = .token := by
  unfold foreign at h
  split at h
  · cases h
  · cases h
    rfl
  · split at h <;> cases h
    rfl

theorem Item.check_of_crampedBefore (h : item.crampedBefore = some cause) :
    cause.check = .token := by
  unfold crampedBefore at h
  split at h <;> cases h
  rfl

theorem Item.check_of_crampedAfter (h : item.crampedAfter = some cause) :
    cause.check = .behind := by
  unfold crampedAfter at h
  split at h <;> cases h
  rfl

theorem Item.check_of_misplaced {previous : Option Item} (h : item.misplaced previous = some cause) :
    cause.check = .token := by
  unfold misplaced at h
  split at h
  · split at h <;> cases h
    rfl
  · split at h
    · cases h
      rfl
    · split at h
      · split at h <;> cases h <;> rfl
      · cases h

namespace Context

theorem check_of_misnested (h : c.misnested item = some cause) : cause.check = .token := by
  unfold misnested at h
  split at h
  · cases h
    rfl
  · split at h <;> cases h
    rfl

theorem check_of_overlong (h : c.overlong item = some cause) : cause.check = .token := by
  unfold overlong at h
  split at h <;> cases h
  rfl

theorem check_of_unfit (h : c.unfit item = some cause) : cause.check = .token := by
  rcases Option.or_eq_some_iff.1 h with foreign | ⟨_, h⟩
  · exact Item.check_of_foreign foreign
  rcases Option.or_eq_some_iff.1 h with cramped | ⟨_, h⟩
  · exact Item.check_of_crampedBefore cramped
  rcases Option.or_eq_some_iff.1 h with nested | ⟨_, h⟩
  · exact check_of_misnested nested
  rcases Option.or_eq_some_iff.1 h with long | ⟨_, placed⟩
  · exact check_of_overlong long
  · exact Item.check_of_misplaced placed

theorem check_of_cramped (h : c.previous.bind Item.crampedAfter = some cause) :
    cause.check = .behind := by
  obtain ⟨before, _, cramped⟩ := Option.bind_eq_some_iff.1 h
  exact Item.check_of_crampedAfter cramped

theorem check_of_unfinished {length : Nat} (h : c.unfinished length = some cause) :
    cause.check = .ending := by
  unfold unfinished at h
  split at h
  · cases h
    rfl
  · split at h
    · cases h
      rfl
    · obtain ⟨enclosure, _, rfl⟩ := Option.map_eq_some_iff.1 h
      rfl

end Context

end

/-! ## One token after the other -/

namespace Admission

theorem settle_of_objection {s : Admission} {item : Item} {cause : GrammarFault}
    (h : (s.overlong item).or (item.misplaced s.previous) = some cause) :
    s.settle item = (.error (.grammar cause), { s with
      operators := if item.role = .value then s.operators else s.operators + 1 }) := by
  unfold settle countOperator
  unfold Context.overlong at h
  by_cases value : item.role = .value
  · rw [if_neg (fun beyond => beyond.1 value), Option.none_or] at h
    rw [if_neg (fun beyond => beyond.1 value), if_pos value, if_pos value, h]
    rfl
  · by_cases long : maxOperators < s.operators + 1
    · rw [if_pos ⟨value, long⟩, Option.some_or] at h
      cases h
      rw [if_neg value, if_neg value, if_pos ⟨value, long⟩]
      rfl
    · rw [if_neg (fun beyond => long beyond.2), Option.none_or] at h
      rw [if_neg value, if_neg value, if_neg (fun beyond => long beyond.2), h]
      rfl

theorem settle_of_clear {s : Admission} {item : Item}
    (h : (s.overlong item).or (item.misplaced s.previous) = none) :
    s.settle item = (.ok (some item), { s with
      previous := some item
      operators := if item.role = .value then s.operators else s.operators + 1 }) := by
  obtain ⟨short, placed⟩ := Option.or_eq_none_iff.1 h
  unfold settle countOperator
  unfold Context.overlong at short
  by_cases value : item.role = .value
  · rw [if_neg (fun beyond => beyond.1 value), if_pos value, if_pos value, placed]
  · have bound : ¬ maxOperators < s.operators + 1 := fun long => by
      rw [if_pos ⟨value, long⟩] at short
      cases short
    rw [if_neg value, if_neg value, if_neg (fun beyond => bound beyond.2), placed]

theorem nest_of_misnested {s : Admission} {item : Item} {cause : GrammarFault}
    (h : s.misnested item = some cause) :
    ∃ left, s.Jolted item left ∧
      s.nest item = (.error (.grammar cause), { s with toContext := left }) := by
  unfold nest
  unfold Context.misnested at h
  cases step : s.nesting.step item.index item.role with
  | none =>
      rw [step] at h
      cases h
      exact ⟨s.toContext, ⟨rfl, rfl, .inl rfl, .inl rfl⟩, rfl⟩
  | some nesting =>
      rw [step] at h
      simp only at h ⊢
      split at h <;> cases h
      rw [if_pos ‹_›]
      exact ⟨{ s.toContext with nesting := nesting }, ⟨rfl, rfl, .inr step, .inl rfl⟩, rfl⟩

theorem nest_of_clear {s : Admission} {item : Item} (h : s.misnested item = none) :
    s.nest item =
      { s with nesting := (s.nesting.step item.index item.role).getD s.nesting }.settle item := by
  unfold nest
  unfold Context.misnested at h
  cases step : s.nesting.step item.index item.role with
  | none =>
      rw [step] at h
      cases h
  | some nesting =>
      rw [step] at h
      simp only at h ⊢
      split at h
      · cases h
      · rw [if_neg ‹_›]
        rfl

theorem consider_of_unfit {s : Admission} {token : Token} {cause : GrammarFault}
    (h : s.unfit (s.item token) = some cause) :
    ∃ left, s.Jolted (s.item token) left ∧
      s.consider token = (.error (.grammar cause), { s with toContext := left }) := by
  have same : s.Jolted (s.item token) s.toContext := ⟨rfl, rfl, .inl rfl, .inl rfl⟩
  unfold Context.unfit at h
  show ∃ left, _ ∧ (match (s.item token).foreign s.grammar with
    | some fault => s.refuse fault
    | none => match (s.item token).crampedBefore with
      | some fault => s.refuse fault
      | none => s.nest (s.item token)) = _
  cases foreign : (s.item token).foreign s.grammar with
  | some fault =>
      rw [foreign, Option.some_or] at h
      cases h
      exact ⟨s.toContext, same, rfl⟩
  | none =>
      rw [foreign, Option.none_or] at h
      cases cramped : (s.item token).crampedBefore with
      | some fault =>
          rw [cramped, Option.some_or] at h
          cases h
          exact ⟨s.toContext, same, rfl⟩
      | none =>
          rw [cramped, Option.none_or] at h
          cases nested : s.misnested (s.item token) with
          | some fault =>
              rw [nested, Option.some_or] at h
              cases h
              exact nest_of_misnested nested
          | none =>
              rw [nested, Option.none_or] at h
              obtain ⟨nesting, step⟩ := Context.exists_step_of_misnested nested
              simp only
              rw [nest_of_clear nested, step, Option.getD_some,
                settle_of_objection (s := { s with nesting := nesting }) h]
              refine ⟨{ s.toContext with
                nesting := nesting
                operators := if (s.item token).role = .value then s.operators else s.operators + 1 },
                ⟨rfl, rfl, .inr step, ?_⟩, rfl⟩
              by_cases value : (s.item token).role = .value
              · exact .inl (if_pos value)
              · exact .inr (if_neg value)

theorem consider_of_fit {s : Admission} {token : Token} (h : s.unfit (s.item token) = none) :
    s.consider token = (.ok (some (s.item token)), { s with toContext := s.advance token }) := by
  unfold Context.unfit at h
  obtain ⟨foreign, h⟩ := Option.or_eq_none_iff.1 h
  obtain ⟨cramped, h⟩ := Option.or_eq_none_iff.1 h
  obtain ⟨nested, h⟩ := Option.or_eq_none_iff.1 h
  show (match (s.item token).foreign s.grammar with
    | some fault => s.refuse fault
    | none => match (s.item token).crampedBefore with
      | some fault => s.refuse fault
      | none => s.nest (s.item token)) = _
  rw [foreign, cramped]
  simp only
  rw [nest_of_clear nested]
  exact settle_of_clear (s := { s with
    nesting := (s.nesting.step (s.item token).index (s.item token).role).getD s.nesting }) h

/-- What the last token lacks is missed before anything else is read. -/
theorem read_of_cramped {s : Admission} {cause : GrammarFault}
    (h : s.previous.bind Item.crampedAfter = some cause) :
    s.read = (.error (.grammar cause), s) := by
  unfold read
  rw [h]
  rfl

/-- A token that something is wrong with is gone. -/
theorem read_of_unfit {s : Admission} {token : Token} {rest : List Token} {cause : GrammarFault}
    (settled : s.previous.bind Item.crampedAfter = none) (unread : s.unread = token :: rest)
    (h : s.unfit (s.item token) = some cause) :
    ∃ left, s.Jolted (s.item token) left ∧
      s.read = (.error (.grammar cause), { s with toContext := left, unread := rest }) := by
  unfold read
  rw [settled, unread]
  exact consider_of_unfit (s := { s with unread := rest }) h

/-- A token with an objection is refused for it. -/
theorem read_of_objection {s : Admission} {token : Token} {rest : List Token}
    {cause : GrammarFault} (unread : s.unread = token :: rest)
    (h : s.objection token = some cause) : s.read.1 = .error (.grammar cause) := by
  unfold Context.objection at h
  cases cramped : s.previous.bind Item.crampedAfter with
  | some fault =>
      rw [cramped, Option.some_or] at h
      cases h
      rw [read_of_cramped cramped]
  | none =>
      rw [cramped, Option.none_or] at h
      obtain ⟨left, _, read⟩ := read_of_unfit cramped unread h
      rw [read]

/-- A token without one is admitted. -/
theorem read_of_clear {s : Admission} {token : Token} {rest : List Token}
    (unread : s.unread = token :: rest) (h : s.objection token = none) :
    s.read = (.ok (some (s.item token)), { s with
      toContext := s.advance token
      unread := rest }) := by
  obtain ⟨cramped, fit⟩ := Option.or_eq_none_iff.1 h
  unfold read
  rw [cramped, unread]
  exact consider_of_fit (s := { s with unread := rest }) fit

theorem read_of_ending {s : Admission} {d : Diagnostic} (unread : s.unread = [])
    (h : s.ending s.length s.fault = some d) : s.read.1 = .error d := by
  unfold Context.ending at h
  unfold read
  cases cramped : s.previous.bind Item.crampedAfter with
  | some cause =>
      rw [cramped] at h
      cases h
      rfl
  | none =>
      rw [cramped, Option.map_none, Option.none_or] at h
      rw [unread]
      cases fault : s.fault with
      | some cause =>
          rw [fault] at h
          cases h
          rfl
      | none =>
          rw [fault, Option.map_none, Option.none_or] at h
          cases unfinished : s.unfinished s.length with
          | none =>
              rw [unfinished] at h
              cases h
          | some cause =>
              rw [unfinished] at h
              cases h
              rfl

theorem read_of_complete {s : Admission} (unread : s.unread = [])
    (h : s.ending s.length s.fault = none) : s.read = (.ok none, s) := by
  unfold Context.ending at h
  obtain ⟨cramped, h⟩ := Option.or_eq_none_iff.1 h
  obtain ⟨fault, h⟩ := Option.or_eq_none_iff.1 h
  rw [Option.map_eq_none_iff] at cramped fault h
  unfold read
  rw [cramped, unread, fault, h]

/-! ## All tokens -/

theorem admitted_of_item {s next : Admission} {item : Item}
    (h : s.take = (.ok (some item), next)) : s.admitted = next.admitted.cons item := by
  rw [admitted]
  split <;> simp_all

theorem admitted_of_end {s next : Admission} (h : s.take = (.ok none, next)) :
    s.admitted = ⟨[], none⟩ := by
  rw [admitted]
  split <;> simp_all

theorem admitted_of_error {s : Admission} {d : Diagnostic} (h : s.take.1 = .error d) :
    s.admitted = ⟨[], some d⟩ := by
  rw [admitted]
  split <;> simp_all

/-- Nothing is shown, and the end has not been reached. -/
def Fresh (s : Admission) : Prop := s.shown = none ∧ s.finished = false

theorem Fresh.peek {s : Admission} (fresh : s.Fresh) :
    s.peek = match s.read with
      | (.ok item, next) => (.ok item, { next with shown := item, finished := item.isNone })
      | (.error d, next) => (.error d, next) := by
  unfold Admission.peek
  rw [fresh.1, fresh.2]
  rfl

theorem Fresh.take_of_error {s : Admission} {d : Diagnostic} (fresh : s.Fresh)
    (h : s.read.1 = .error d) : s.take.1 = .error d := by
  unfold take
  rw [fresh.peek]
  cases read : s.read with
  | mk answer next =>
      rw [read] at h
      cases h
      rfl

/-- Handing out the tokens of a text gives what its verdict says. -/
theorem admitted_eq {s : Admission} (fresh : s.Fresh) :
    s.admitted =
      ⟨s.granted s.unread, s.verdict s.length s.fault s.unread⟩ := by
  generalize tokens : s.unread = unread
  induction unread generalizing s with
  | nil =>
      rw [Context.granted, Context.verdict]
      cases ending : s.ending s.length s.fault with
      | some d => exact admitted_of_error (fresh.take_of_error (read_of_ending tokens ending))
      | none =>
          have complete := read_of_complete tokens ending
          have taken : s.take = (.ok none, { s with shown := none, finished := true }) := by
            unfold take
            rw [fresh.peek, complete]
            rfl
          exact admitted_of_end taken
  | cons token rest ih =>
      rw [Context.granted, Context.verdict]
      cases objection : s.objection token with
      | some cause =>
          exact admitted_of_error (fresh.take_of_error (read_of_objection tokens objection))
      | none =>
          have clear := read_of_clear tokens objection
          have taken : s.take = (.ok (some (s.item token)), { s with
              toContext := s.advance token
              unread := rest
              shown := none
              finished := false }) := by
            unfold take
            rw [fresh.peek, clear]
            rfl
          rw [admitted_of_item taken, ih ⟨rfl, rfl⟩ rfl]
          rfl

theorem fresh_start (g : Grammar) (p : Punctuation) (source : String) :
    (start g p source).Fresh := ⟨rfl, rfl⟩

theorem admitted_start (g : Grammar) (p : Punctuation) (source : String) :
    (start g p source).admitted =
      ⟨(Context.start g).granted (Scan.ofText p source).tokens,
        (Context.start g).verdict source.toList.length (Scan.ofText p source).fault
          (Scan.ofText p source).tokens⟩ :=
  admitted_eq (fresh_start g p source)

end Admission

end Criterion
