/-
# Criterion.Admission — tokens admitted one at a time

An `Admission` hands out the tokens of a text in order, each checked against the grammar before it
is handed out, so the first violation in the text is the one found. What a check needs to know of
the tokens before is a `Context`. `take` hands out the next token, `peek` shows it; what is shown is
kept and handed out later. At the end of the text `none` is handed out if the text may end there.

A token that is refused is gone, and the tokens behind it are checked against the last one that was
admitted. `admitted` takes tokens until the end or the first refusal.
-/
import Criterion.Grammar
import Criterion.Nesting
import Criterion.Scan

namespace Criterion

set_option autoImplicit false

/-- What the tokens admitted so far mean for the next one. -/
structure Context where
  grammar : Grammar
  /-- The last token admitted. -/
  previous : Option Item
  nesting : Nesting
  /-- The operators and parentheses so far. -/
  operators : Nat
deriving DecidableEq, Repr

namespace Context

/-- Before the first token. -/
def start (g : Grammar) : Context := ⟨g, none, .outermost, 0⟩

/-- Why a text of this length must not end here. -/
def unfinished (c : Context) (length : Nat) : Option GrammarFault :=
  match c.previous with
  | none => some .empty
  | some last =>
      if last.role.needsRight then some (.openEnd last.role.text length)
      else c.nesting.enclosures.head?.map fun enclosure => .unclosed enclosure.index

end Context

structure Admission extends Context where
  /-- The length of the text in characters. -/
  length : Nat
  /-- The tokens not yet looked at. -/
  unread : List Token
  /-- The fault behind the last token, until it has been reported. -/
  fault : Option LexicalFault
  /-- The token shown but not handed out. -/
  shown : Option Item
  /-- The end of the text has been reached. -/
  finished : Bool
deriving DecidableEq, Repr

namespace Admission

/-- The most operators and parentheses of an expression. -/
def maxOperators : Nat := 1024

/-- Nothing admitted yet of a text of this length with these tokens. -/
def ofScan (g : Grammar) (length : Nat) (scan : Scan) : Admission where
  toContext := .start g
  length := length
  unread := scan.tokens
  fault := scan.fault
  shown := none
  finished := false

def start (g : Grammar) (p : Punctuation) (source : String) : Admission :=
  ofScan g source.toList.length (Scan.ofText p source)

/-! ## One token -/

/-- An answer and the admission that goes on from there. -/
abbrev Reply := Except Diagnostic (Option Item) × Admission

def refuse (s : Admission) (fault : GrammarFault) : Reply := (.error (.grammar fault), s)

/-- Counts a token; operands do not count. -/
def countOperator (s : Admission) (role : Role) : Admission :=
  if role = .value then s else { s with operators := s.operators + 1 }

/-- Admits a token whose nesting is known. -/
def settle (s : Admission) (item : Item) : Reply :=
  let counted := s.countOperator item.role
  if item.role ≠ .value ∧ maxOperators < counted.operators then
    counted.refuse (.tooLong maxOperators item.index)
  else
    match item.misplaced s.previous with
    | some fault => counted.refuse fault
    | none => (.ok (some item), { counted with previous := some item })

/-- Admits a token that the grammar knows and that stands clear of the one before. -/
def nest (s : Admission) (item : Item) : Reply :=
  match s.nesting.step item.index item.role with
  | none => s.refuse (.unmatched item.index)
  | some nesting =>
      let nested := { s with nesting := nesting }
      if Nesting.limit < nesting.depth then nested.refuse (.tooDeep Nesting.limit item.index)
      else nested.settle item

/-- Admits or refuses a token. -/
def consider (s : Admission) (token : Token) : Reply :=
  let item : Item := ⟨Role.ofWord (s.previous.map Item.role) token.word, token⟩
  match item.foreign s.grammar with
  | some fault => s.refuse fault
  | none =>
      match item.crampedBefore with
      | some fault => s.refuse fault
      | none => s.nest item

/-- Reads the next token. A binary operator is asked for the white space behind it before anything
else is read. -/
def read (s : Admission) : Reply :=
  match s.previous.bind Item.crampedAfter with
  | some fault => s.refuse fault
  | none =>
      match s.unread with
      | token :: rest => { s with unread := rest }.consider token
      | [] =>
          match s.fault with
          | some fault => (.error (.lexical fault), { s with fault := none })
          | none =>
              match s.unfinished s.length with
              | some fault => s.refuse fault
              | none => (.ok none, s)

/-! ## Showing and handing out -/

/-- Shows the next token without handing it out. -/
def peek (s : Admission) : Reply :=
  if s.shown.isSome || s.finished then (.ok s.shown, s)
  else
    match s.read with
    | (.ok item, next) => (.ok item, { next with shown := item, finished := item.isNone })
    | (.error d, next) => (.error d, next)

/-- Hands out the next token. -/
def take (s : Admission) : Reply :=
  match s.peek with
  | (.ok item, next) => (.ok item, { next with shown := none })
  | (.error d, next) => (.error d, next)

/-! ## What is left -/

/-- The tokens that can still be handed out. -/
def remaining (s : Admission) : Nat := s.unread.length + s.shown.toList.length

theorem settle_unread {s next : Admission} {item : Item} {answer : Except Diagnostic (Option Item)}
    (h : s.settle item = (answer, next)) :
    next.unread = s.unread ∧ next.shown = s.shown := by
  have counted : (s.countOperator item.role).unread = s.unread ∧
      (s.countOperator item.role).shown = s.shown := by
    unfold countOperator
    split <;> exact ⟨rfl, rfl⟩
  simp only [settle, refuse] at h
  split at h
  · cases h
    exact counted
  · split at h <;> cases h <;> exact counted

theorem consider_unread {s next : Admission} {token : Token}
    {answer : Except Diagnostic (Option Item)} (h : s.consider token = (answer, next)) :
    next.unread = s.unread ∧ next.shown = s.shown := by
  simp only [consider, refuse] at h
  split at h
  · cases h
    exact ⟨rfl, rfl⟩
  · split at h
    · cases h
      exact ⟨rfl, rfl⟩
    · simp only [nest, refuse] at h
      split at h
      · cases h
        exact ⟨rfl, rfl⟩
      · split at h
        · cases h
          exact ⟨rfl, rfl⟩
        · have settled := settle_unread h
          exact settled

/-- A token considered is admitted or refused. -/
theorem consider_ne_none (s : Admission) (token : Token) : (s.consider token).1 ≠ .ok none := by
  simp only [consider, nest, settle, refuse]
  repeat' split
  all_goals simp

/-- A token read is one fewer to read. -/
theorem read_unread {s next : Admission} {item : Item} (h : s.read = (.ok (some item), next)) :
    next.unread.length < s.unread.length ∧ next.shown = s.shown := by
  simp only [read, refuse] at h
  split at h
  · cases h
  · split at h
    · next token rest eq =>
      obtain ⟨unread, shown⟩ := consider_unread h
      simp only at unread shown
      simp [unread, shown, eq]
    · split at h
      · cases h
      · split at h <;> cases h

/-- At the end nothing has been left unread. -/
theorem unread_of_read_none {s next : Admission} (h : s.read = (.ok none, next)) :
    next.unread = [] := by
  simp only [read, refuse] at h
  split at h
  · cases h
  · split at h
    · exact absurd (congrArg Prod.fst h) (consider_ne_none _ _)
    · next unread =>
      split at h
      · cases h
      · split at h <;> cases h
        exact unread

/-- A token handed out is one fewer to hand out. -/
theorem remaining_lt_of_take {s next : Admission} {item : Item}
    (h : s.take = (.ok (some item), next)) : next.remaining < s.remaining := by
  simp only [take, peek] at h
  split at h
  · next answer shown eq =>
    cases h
    split at eq
    · obtain ⟨same, rfl⟩ := Prod.mk.inj eq
      simp [remaining, Except.ok.inj same]
    · next hidden =>
      split at eq
      · next pulled eq_read =>
        obtain ⟨same, rfl⟩ := Prod.mk.inj eq
        cases same
        obtain ⟨unread, shown⟩ := read_unread eq_read
        simp only [remaining, Option.toList_none, List.length_nil]
        omega
      · cases eq
  · cases h

/-- Showing a token takes none away. -/
theorem remaining_le_of_peek {s next : Admission} {item : Option Item}
    (h : s.peek = (.ok item, next)) : next.remaining ≤ s.remaining := by
  simp only [peek] at h
  split at h
  · obtain ⟨_, rfl⟩ := Prod.mk.inj h
    exact Nat.le_refl _
  · split at h
    · next pulled eq_read =>
      cases h
      cases item with
      | none =>
        have unread := unread_of_read_none eq_read
        simp [remaining, unread]
      | some item =>
        obtain ⟨unread, shown⟩ := read_unread eq_read
        simp only [remaining, Option.toList_some, List.length_singleton]
        omega
    · cases h

/-- What is shown is shown again. -/
theorem peek_of_peek {s next : Admission} {item : Option Item} (h : s.peek = (.ok item, next)) :
    next.peek = (.ok item, next) := by
  simp only [peek] at h
  split at h
  · next kept =>
    obtain ⟨same, rfl⟩ := Prod.mk.inj h
    rw [peek, if_pos kept, Except.ok.inj same]
  · split at h
    · cases h
      cases item <;> rfl
    · cases h

/-- What is shown is what is handed out next. -/
theorem take_of_peek {s next : Admission} {item : Option Item} (h : s.peek = (.ok item, next)) :
    next.take = s.take := by
  simp only [take, peek_of_peek h, h]

end Admission

/-! ## All tokens -/

/-- The tokens admitted up to the end of a text or its first fault. -/
structure Admitted where
  items : List Item
  fault : Option Diagnostic
deriving DecidableEq, Repr

def Admitted.cons (item : Item) (a : Admitted) : Admitted := { a with items := item :: a.items }

/-- Hands out tokens until there is none or one is refused. -/
def Admission.admitted (s : Admission) : Admitted :=
  match _h : s.take with
  | (.ok (some item), next) => next.admitted.cons item
  | (.ok none, _) => ⟨[], none⟩
  | (.error d, _) => ⟨[], some d⟩
termination_by s.remaining
decreasing_by exact remaining_lt_of_take _h

end Criterion
