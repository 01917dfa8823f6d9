/-
# Criterion.Proofs.Arrangement — what climbing makes of the tokens

The tokens that an admission hands out are `Viable` from the stance in which climbing asks for them:
they lead a reader on, and to the end of the text unless a fault cuts them off. From there every
call answers as it should (`Answers`): with the fault that cuts them off, or with a tree of the
tokens that it has used up, of the layer that it was asked for. It never objects to a token, since
the stance leaves no token that it has no place for.

A call for operators of precedence at least `least` is one for a layer (`Floor`), and goes on as far
as the layer does (`Ended`): `climb` keeps an operand of some layer, meets operators of that layer
or a looser one only, and is left with an operand of the operator's layer.
-/
import Criterion.Arrangement
import Criterion.Proofs.Acceptance
import Criterion.Proofs.Layers

namespace Criterion

set_option autoImplicit false

/-! ## What is left to hand out -/

namespace Admission

/-- A token that is shown is left to be handed out. -/
theorem admitted_of_peek {s shown : Admission} {item : Option Item}
    (h : s.peek = (.ok item, shown)) :
    shown.admitted = s.admitted ∧ item = s.admitted.items.head? ∧
      (item = none → s.admitted.fault = none) := by
  have same := take_of_peek h
  have taken : s.take = (.ok item, { shown with shown := none }) := by
    unfold take
    rw [h]
  refine ⟨?_, ?_⟩
  · cases answer : s.take with
    | mk reply rest =>
        rw [answer] at same
        cases reply with
        | error d =>
            rw [admitted_of_error (congrArg Prod.fst same),
              admitted_of_error (congrArg Prod.fst answer)]
        | ok item =>
            cases item with
            | none => rw [admitted_of_end same, admitted_of_end answer]
            | some item => rw [admitted_of_item same, admitted_of_item answer]
  · cases item with
    | none =>
        rw [admitted_of_end taken]
        exact ⟨rfl, fun _ => rfl⟩
    | some item =>
        rw [admitted_of_item taken]
        exact ⟨rfl, fun none => (by cases none)⟩

/-- Behind the end there is nothing. -/
theorem admitted_behind_end {s rest : Admission} (h : s.take = (.ok none, rest)) :
    rest.admitted = ⟨[], none⟩ := by
  have finished : rest.shown = none ∧ rest.finished = true := by
    unfold take at h
    cases peeked : s.peek with
    | mk answer shown =>
        rw [peeked] at h
        cases answer with
        | error d => cases h
        | ok item =>
            cases h
            unfold peek at peeked
            split at peeked
            · next kept =>
                obtain ⟨same, rfl⟩ := Prod.mk.inj peeked
                rw [Except.ok.inj same] at kept
                exact ⟨rfl, kept⟩
            · split at peeked <;> cases peeked
              exact ⟨rfl, rfl⟩
  have kept : (rest.shown.isSome || rest.finished) = true := by
    rw [finished.2, Bool.or_true]
  have again : rest.take = (.ok none, { rest with shown := none }) := by
    unfold take peek
    rw [if_pos kept, finished.1]
  exact admitted_of_end again

end Admission

/-- The tokens lead a reader on from a stance, to the end if no fault cuts them off, and each of
them has the role of its word. -/
structure Admitted.Viable (a : Admitted) (st : Stance) : Prop where
  worded : ∀ item ∈ a.items, ∃ previous, item.role = Role.ofWord previous item.token.word
  walked : ∃ last, st.walk (a.items.map Item.role) = some last ∧ (a.fault = none → last = .done)

namespace Admitted.Viable

variable {a : Admitted} {st : Stance}

theorem done (h : (⟨[], none⟩ : Admitted).Viable st) : st = .done := by
  obtain ⟨last, walked, done⟩ := h.walked
  exact (Option.some.inj walked).trans (done rfl)

theorem uncons {item : Item} (h : (a.cons item).Viable st) :
    (∃ previous, item.role = Role.ofWord previous item.token.word) ∧
      ∃ next, st.step item.role = some next ∧ a.Viable next := by
  obtain ⟨last, walked, done⟩ := h.walked
  rw [Admitted.cons, List.map_cons, Stance.walk_cons, Option.bind_eq_some_iff] at walked
  obtain ⟨next, step, walked⟩ := walked
  exact ⟨h.worded item (.head _), next, step, fun item mem => h.worded item (.tail _ mem),
    last, walked, done⟩

end Admitted.Viable

/-- What is left has tokens or an end without fault, and does not go on in layer `m`. -/
def Admitted.Ended (a : Admitted) (m : Nat) : Prop :=
  (a.items = [] → a.fault = none) ∧
    ∀ item, a.items.head? = some item → ∀ op, item.role = .binary op → op.layer < m

theorem Role.ofSign_cases (operandNext : Bool) (sign : Sign) :
    (∃ op, ofSign operandNext sign = .unary op) ∨ ∃ op, ofSign operandNext sign = .binary op := by
  cases sign <;> cases operandNext <;> first
    | exact .inl ⟨_, rfl⟩
    | exact .inr ⟨_, rfl⟩

theorem Role.leaf_of_value {previous : Option Role} {word : Word}
    (h : ofWord previous word = .value) : ∃ e, word.leaf? = some e := by
  cases word with
  | number n => exact ⟨_, rfl⟩
  | name text => exact ⟨_, rfl⟩
  | bool b => exact ⟨_, rfl⟩
  | sign sign =>
      rcases ofSign_cases (previous.all needsRight) sign with ⟨op, eq⟩ | ⟨op, eq⟩ <;>
        cases eq.symm.trans h
  | openParen | closeParen => cases h

theorem Role.word_of_opening {previous : Option Role} {word : Word}
    (h : ofWord previous word = .opening) : word = .openParen := by
  cases word with
  | openParen => rfl
  | sign sign =>
      rcases ofSign_cases (previous.all needsRight) sign with ⟨op, eq⟩ | ⟨op, eq⟩ <;>
        cases eq.symm.trans h
  | number | name | bool | closeParen => cases h

theorem Role.word_of_closing {previous : Option Role} {word : Word}
    (h : ofWord previous word = .closing) : word = .closeParen := by
  cases word with
  | closeParen => rfl
  | sign sign =>
      rcases ofSign_cases (previous.all needsRight) sign with ⟨op, eq⟩ | ⟨op, eq⟩ <;>
        cases eq.symm.trans h
  | number | name | bool | openParen => cases h

/-! ## Answers -/

namespace Arrangement

/-- A call that is left these tokens answers with their fault, or with a tree of the first of them
of which `post` holds; it has no objections of its own. -/
def Answers (a : Admitted) (post : List Item → Expr → Admitted → Prop) : Arrangement → Prop
  | tree e rest => ∃ used, a.items = used ++ rest.admitted.items ∧
      rest.admitted.fault = a.fault ∧ post used e rest.admitted
  | fault d => a.fault = some d
  | stray _ => False
  | spent => True

variable {s : Admission} {a : Admitted} {post post' : List Item → Expr → Admitted → Prop}

theorem Answers.bind {r : Arrangement} {next : Expr → Admission → Arrangement}
    (first : r.Answers a post)
    (second : ∀ used e rest, post used e rest.admitted →
      (next e rest).Answers rest.admitted fun more => post' (used ++ more)) :
    (r.bind next).Answers a post' := by
  cases r with
  | tree e rest =>
      obtain ⟨used, items, fault, holds⟩ := first
      have answer := second used e rest holds
      rw [Arrangement.bind]
      cases last : next e rest with
      | tree e' rest' =>
          rw [last] at answer
          obtain ⟨more, items', fault', holds'⟩ := answer
          exact ⟨used ++ more, by rw [items, items', List.append_assoc], fault'.trans fault, holds'⟩
      | fault d =>
          rw [last] at answer
          exact fault.symm.trans answer
      | stray cause =>
          rw [last] at answer
          exact answer
      | spent => trivial
  | fault d => exact first
  | stray cause => exact first
  | spent => trivial

theorem answers_peek {next : Option Item → Admission → Arrangement}
    (h : ∀ item shown, s.peek = (.ok item, shown) → shown.admitted = s.admitted →
      item = s.admitted.items.head? → (item = none → s.admitted.fault = none) →
      (next item shown).Answers s.admitted post) :
    (ask s.peek next).Answers s.admitted post := by
  cases peeked : s.peek with
  | mk answer shown =>
      cases answer with
      | error d =>
          have refused : s.take.1 = .error d := by
            unfold Admission.take
            rw [peeked]
          rw [ask, Admission.admitted_of_error refused]
          rfl
      | ok item =>
          obtain ⟨same, head, last⟩ := Admission.admitted_of_peek peeked
          exact h item shown peeked same head last

theorem answers_take {next : Option Item → Admission → Arrangement}
    (last : ∀ rest, s.admitted = ⟨[], none⟩ → rest.admitted = ⟨[], none⟩ →
      (next none rest).Answers ⟨[], none⟩ post)
    (more : ∀ item rest, s.admitted = rest.admitted.cons item →
      (next (some item) rest).Answers rest.admitted fun used => post (item :: used)) :
    (ask s.take next).Answers s.admitted post := by
  cases taken : s.take with
  | mk answer rest =>
      cases answer with
      | error d =>
          rw [ask, Admission.admitted_of_error (congrArg Prod.fst taken)]
          rfl
      | ok item =>
          cases item with
          | none =>
              have empty := Admission.admitted_of_end taken
              rw [empty]
              exact last rest empty (Admission.admitted_behind_end taken)
          | some item =>
              have cons := Admission.admitted_of_item taken
              have answer := more item rest cons
              rw [cons, ask]
              cases reply : next (some item) rest with
              | tree e behind =>
                  rw [reply] at answer
                  obtain ⟨used, items, fault, holds⟩ := answer
                  exact ⟨item :: used, congrArg (List.cons item) items, fault, holds⟩
              | fault d =>
                  rw [reply] at answer
                  exact answer
              | stray cause =>
                  rw [reply] at answer
                  exact answer
              | spent => trivial

theorem answers_tree {e : Expr} (h : post [] e s.admitted) :
    (tree e s).Answers s.admitted post := ⟨[], rfl, rfl, h⟩

/-! ## Precedence and layers -/

/-- The operators of precedence at least `least` are those of layer `m` and tighter ones. -/
def Floor (least m : Nat) : Prop := ∀ op : BinaryOp, least ≤ op.precedence ↔ m ≤ op.layer

theorem floor_zero : Floor 0 0 := fun _ => iff_of_true (Nat.zero_le _) (Nat.zero_le _)

/-- One step tighter than an operator is the next layer. -/
theorem floor_succ (op : BinaryOp) : Floor (op.precedence + 1) (op.layer + 1) := by
  intro other
  cases op <;> cases other <;> decide

theorem not_unary_of_prefixOf {item : Option Item} (h : prefixOf item = none) {found : Item}
    (head : item = some found) (op : UnaryOp) : found.role ≠ .unary op := by
  obtain ⟨role, token⟩ := found
  subst head
  rintro rfl
  cases h

theorem lt_of_infixOf {least m : Nat} {item : Option Item} (level : Floor least m)
    (h : infixOf least item = none) {found : Item} (head : item = some found) {op : BinaryOp}
    (role : found.role = .binary op) : op.layer < m := by
  obtain ⟨_, token⟩ := found
  subst head role
  have loose : ¬ least ≤ op.precedence := fun le => by
    rw [infixOf, if_pos le] at h
    cases h
  exact Nat.lt_of_not_le fun le => loose ((level op).2 le)

/-! ## Calls -/

/-- What a call for a layer answers, with `n` parentheses open. -/
def Operand (m n : Nat) (used : List Item) (e : Expr) (rest : Admitted) : Prop :=
  Layered m used e ∧ rest.Viable ⟨false, n⟩

/-- The loop goes on from an operand of layer `j` behind which no operator binds tighter. -/
theorem climb_answers {operand : Nat → Admission → Arrangement}
    (right : ∀ {least m n : Nat} {s : Admission}, Floor least m → m ≤ 6 →
      s.admitted.Viable ⟨true, n⟩ → (operand least s).Answers s.admitted fun used e rest =>
        Operand m n used e rest ∧ rest.Ended m)
    {least m j n : Nat} (level : Floor least m) (tight : m ≤ j) (bound : j ≤ 6) (steps : Nat)
    {left : Expr} {before : List Item} {s : Admission} (layered : Layered j before left)
    (viable : s.admitted.Viable ⟨false, n⟩)
    (loose : ∀ item, s.admitted.items.head? = some item → ∀ op, item.role = .binary op →
      op.layer ≤ j) :
    (climb operand least steps left s).Answers s.admitted fun used e rest =>
      Operand m n (before ++ used) e rest ∧ rest.Ended m := by
  induction steps generalizing j left before s with
  | zero => trivial
  | succ steps ih =>
      apply answers_peek
      intro item shown peeked same head last
      split
      · next ends =>
          rw [← same]
          refine answers_tree ⟨⟨?_, same ▸ viable⟩, fun empty => ?_, fun found first op role => ?_⟩
          · rw [List.append_nil]
            exact layered.loosen tight (by omega)
          · rw [same] at empty ⊢
            exact last (by rw [head, empty]; rfl)
          · rw [same] at first
            exact lt_of_infixOf level ends (head.trans first) role
      · next op goes =>
          obtain ⟨found, rfl, role, le⟩ := eq_some_of_infixOf goes
          rw [← same]
          apply answers_take
          · intro rest empty _
            rw [← same, empty] at head
            cases head
          · intro item rest cons
            have item_eq : item = found := by
              rw [← same, cons] at head
              exact (Option.some.inj head).symm
            subst item_eq
            rw [← same, cons] at viable
            obtain ⟨_, next, step, viable⟩ := viable.uncons
            rw [role, Stance.step_binary] at step
            cases step
            have here := (level op).1 le
            have reach := loose item (by rw [← head]) op role
            apply (right (floor_succ op) op.layer_lt viable).bind
            intro used e behind holds
            obtain ⟨⟨operand_layered, operand_viable⟩, ended⟩ := holds
            have whole := Layered.operation rfl role (layered.loosen reach (by omega))
              operand_layered
            have more := ih here (by omega) whole operand_viable fun item first op' role' =>
              Nat.le_of_lt_succ (ended.2 item first op' role')
            simpa only [List.append_assoc, List.cons_append] using more

/-- Behind an expression in parentheses stands the closing one. -/
theorem enclose_answers {opener : Item} {inner : Expr} {n : Nat} {s : Admission}
    (viable : s.admitted.Viable ⟨false, n + 1⟩) (ended : s.admitted.Ended 0) :
    (enclose opener inner s).Answers s.admitted fun used e rest =>
      (∃ closer, used = [closer] ∧ closer.role = .closing) ∧ e = inner ∧
        rest.Viable ⟨false, n⟩ := by
  apply answers_take
  · intro rest empty _
    rw [empty] at viable
    cases viable.done
  · intro item rest cons
    rw [cons] at viable ended
    obtain ⟨_, next, step, viable⟩ := viable.uncons
    rcases Stance.step_not_due step with ⟨op, role, _⟩ | ⟨role, m, opened, rfl⟩
    · cases ended.2 item rfl op role
    · cases opened
      simp only [if_pos role]
      exact answers_tree ⟨⟨item, rfl, role⟩, rfl, viable⟩

theorem Answers.mono {r : Arrangement} (h : r.Answers a post)
    (weaker : ∀ used e rest, post used e rest → post' used e rest) : r.Answers a post' := by
  cases r with
  | tree e rest =>
      obtain ⟨used, items, fault, holds⟩ := h
      exact ⟨used, items, fault, weaker used e _ holds⟩
  | fault d => exact h
  | stray cause => exact h
  | spent => trivial

section

variable {depth n : Nat}

theorem unary_answers
    (operand : ∀ {n : Nat} {s : Admission}, s.admitted.Viable ⟨true, n⟩ →
      (unary depth s).Answers s.admitted (Operand 6 n))
    (core : ∀ {n : Nat} {s : Admission}, s.admitted.Viable ⟨true, n⟩ →
      (∀ item, s.admitted.items.head? = some item → ∀ op, item.role ≠ .unary op) →
      (primary depth s).Answers s.admitted (Operand 7 n))
    (viable : s.admitted.Viable ⟨true, n⟩) :
    (unary (depth + 1) s).Answers s.admitted (Operand 6 n) := by
  apply answers_peek
  intro item shown _ same head _
  rw [← same] at viable head ⊢
  split
  · next op sign =>
      obtain ⟨found, rfl, role⟩ := eq_some_of_prefixOf sign
      apply answers_take
      · intro rest empty _
        rw [empty] at head
        cases head
      · intro item rest cons
        rw [cons] at head viable
        cases head
        obtain ⟨_, next, step, viable⟩ := viable.uncons
        rw [role, Stance.step_unary] at step
        cases step
        apply (operand viable).bind
        intro used e behind holds
        refine answers_tree ⟨?_, holds.2⟩
        rw [List.append_nil]
        exact .unary role holds.1
  · next plain =>
      have answer := core viable fun item first =>
        not_unary_of_prefixOf plain (head.trans first)
      exact answer.mono fun used e rest holds => ⟨.tighter (by decide) holds.1, holds.2⟩

theorem primary_answers
    (inside : ∀ {least m n : Nat} {s : Admission}, Floor least m → m ≤ 6 →
      s.admitted.Viable ⟨true, n⟩ → (binary depth least s).Answers s.admitted fun used e rest =>
        Operand m n used e rest ∧ rest.Ended m)
    (viable : s.admitted.Viable ⟨true, n⟩)
    (bare : ∀ item, s.admitted.items.head? = some item → ∀ op, item.role ≠ .unary op) :
    (primary (depth + 1) s).Answers s.admitted (Operand 7 n) := by
  apply answers_take
  · intro rest empty _
    rw [empty] at viable
    cases viable.done
  · intro item rest cons
    rw [cons] at viable bare
    obtain ⟨⟨previous, worded⟩, next, step, viable⟩ := viable.uncons
    rcases Stance.step_due step with ⟨role, rfl⟩ | ⟨op, role, _⟩ | ⟨role, rfl⟩
    · obtain ⟨e, leaf⟩ := Role.leaf_of_value (worded.symm.trans role)
      simp only [leaf]
      exact answers_tree ⟨.leaf role leaf, viable⟩
    · exact absurd role (bare item rfl op)
    · have word := Role.word_of_opening (worded.symm.trans role)
      simp only [word, Word.leaf?, if_pos]
      apply (inside floor_zero (Nat.zero_le 6) viable).bind
      intro used e behind holds
      apply (enclose_answers holds.1.2 holds.2).mono
      intro more e' rest' closed
      obtain ⟨⟨closer, rfl, closing⟩, rfl, viable⟩ := closed
      exact ⟨.enclosed role closing holds.1.1, viable⟩

end

/-- Where an operand is due, every call answers for its layer. -/
theorem call_answers (depth : Nat) :
    (∀ {least m n : Nat} {s : Admission}, Floor least m → m ≤ 6 →
      s.admitted.Viable ⟨true, n⟩ → (binary depth least s).Answers s.admitted fun used e rest =>
        Operand m n used e rest ∧ rest.Ended m) ∧
    (∀ {n : Nat} {s : Admission}, s.admitted.Viable ⟨true, n⟩ →
      (unary depth s).Answers s.admitted (Operand 6 n)) ∧
    (∀ {n : Nat} {s : Admission}, s.admitted.Viable ⟨true, n⟩ →
      (∀ item, s.admitted.items.head? = some item → ∀ op, item.role ≠ .unary op) →
      (primary depth s).Answers s.admitted (Operand 7 n)) := by
  induction depth with
  | zero => exact ⟨fun _ _ _ => trivial, fun _ => trivial, fun _ _ => trivial⟩
  | succ depth ih =>
      obtain ⟨ih_binary, ih_unary, ih_primary⟩ := ih
      refine ⟨fun level bound viable => ?_, unary_answers ih_unary ih_primary,
        primary_answers ih_binary⟩
      apply (ih_unary viable).bind
      intro used left rest operand
      exact climb_answers ih_binary level bound (Nat.le_refl 6) _ operand.1 operand.2
        fun _ _ op _ => Nat.le_of_lt op.layer_lt

/-- All tokens are arranged in one tree of the loosest layer. -/
theorem whole_answers (depth : Nat) {s : Admission} (viable : s.admitted.Viable .start) :
    (whole depth s).Answers s.admitted fun used e rest => Layered 0 used e ∧ rest = ⟨[], none⟩ := by
  refine ((call_answers depth).1 floor_zero (Nat.zero_le 6) viable).bind
    fun used e rest holds => ?_
  obtain ⟨⟨layered, viable⟩, ended⟩ := holds
  apply answers_take
  · intro done empty behind
    have answer : (tree e done).Answers done.admitted fun more e' rest' =>
        Layered 0 (used ++ more) e' ∧ rest' = ⟨[], none⟩ :=
      answers_tree ⟨by rw [List.append_nil]; exact layered, behind⟩
    rw [behind] at answer
    exact answer
  · intro item done cons
    rw [cons] at viable ended
    obtain ⟨_, next, step, _⟩ := viable.uncons
    rcases Stance.step_not_due step with ⟨op, role, _⟩ | ⟨_, m, opened, _⟩
    · cases ended.2 item rfl op role
    · cases opened

end Arrangement

end Criterion
