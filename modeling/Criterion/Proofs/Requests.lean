/-
# Criterion.Proofs.Requests — shown and handed out in any order

An admission is asked to show or to hand out its next token, in any order and also behind a refusal,
which leaves it in a state that no text without fault leads to.

* `Reads` is all that reading a token can come to, with the state that is left (`read_reads`), and
  `Serves` all that a request can: it is answered by what is shown already or by reading
  (`serve_serves`).
* `pulled_induction`: what every reading keeps is kept by requests in any order. What has been read
  is what was handed out so far and what is shown (`pulled`).
-/
import Criterion.Proofs.Admission
import Mathlib.Data.List.Induction

namespace Criterion

set_option autoImplicit false

/-- What an admission is asked for. -/
inductive Request where
  | peek
  | take
deriving DecidableEq, Repr

/-- What is still shown behind a request that found `item`. -/
def Request.keeps : Request → Option Item → Option Item
  | .peek, item => item
  | .take, _ => none

theorem Request.keeps_none (r : Request) : r.keeps none = none := by
  cases r <;> rfl

/-- A take keeps nothing, and a peek one item at most. -/
theorem Request.length_keeps_le (r : Request) (item : Option Item) :
    (r.keeps item).toList.length + [r].count .take ≤ 1 := by
  cases r with
  | peek =>
      cases item with
      | none => exact Nat.zero_le 1
      | some _ => exact Nat.le_refl 1
  | take => exact Nat.le_refl 1

/-- What the answer to a request hands out. -/
def Request.hands : Request → Except Diagnostic (Option Item) → List Item
  | .take, .ok item => item.toList
  | _, _ => []

/-- An item is handed out or goes on being shown. -/
theorem Request.hands_append_keeps (r : Request) (item : Option Item) :
    r.hands (.ok item) ++ (r.keeps item).toList = item.toList := by
  cases r with
  | peek => rfl
  | take => exact List.append_nil _

theorem Request.hands_error (r : Request) (d : Diagnostic) : r.hands (.error d) = [] := by
  cases r <;> rfl

namespace Admission

/-! ## One reading -/

/-- What reading the next token can come to. -/
inductive Reads (s : Admission) : Reply → Prop where
  /-- The last token lacks white space behind it. -/
  | cramped {cause : GrammarFault} :
      s.previous.bind Item.crampedAfter = some cause → Reads s (.error (.grammar cause), s)
  | refused {token : Token} {rest : List Token} {cause : GrammarFault} {left : Context} :
      s.previous.bind Item.crampedAfter = none → s.unread = token :: rest →
      s.unfit (s.item token) = some cause → s.Jolted (s.item token) left →
      Reads s (.error (.grammar cause), { s with toContext := left, unread := rest })
  | admitted {token : Token} {rest : List Token} :
      s.unread = token :: rest → s.objection token = none →
      Reads s (.ok (some (s.item token)), { s with toContext := s.advance token, unread := rest })
  /-- The letters behind the last token are at fault, which is reported once. -/
  | misread {cause : LexicalFault} :
      s.unread = [] → s.fault = some cause →
      Reads s (.error (.lexical cause), { s with fault := none })
  | unfinished {cause : GrammarFault} :
      s.unread = [] → s.fault = none → s.unfinished s.length = some cause →
      Reads s (.error (.grammar cause), s)
  | ended :
      s.previous.bind Item.crampedAfter = none → s.unread = [] → s.fault = none →
      s.unfinished s.length = none → Reads s (.ok none, s)

theorem read_reads (s : Admission) : s.Reads s.read := by
  cases settled : s.previous.bind Item.crampedAfter with
  | some cause =>
      rw [read_of_cramped settled]
      exact .cramped settled
  | none =>
      cases unread : s.unread with
      | cons token rest =>
          cases unfit : s.unfit (s.item token) with
          | some cause =>
              obtain ⟨left, jolted, read⟩ := read_of_unfit settled unread unfit
              rw [read]
              exact .refused settled unread unfit jolted
          | none =>
              have clear : s.objection token = none := Option.or_eq_none_iff.2 ⟨settled, unfit⟩
              rw [read_of_clear unread clear]
              exact .admitted unread clear
      | nil =>
          cases fault : s.fault with
          | some cause =>
              have read : s.read = (.error (.lexical cause), { s with fault := none }) := by
                simp only [Admission.read, settled, unread, fault]
              rw [read]
              exact .misread unread fault
          | none =>
              unfold Admission.read
              rw [settled, unread, fault]
              cases unfinished : s.unfinished s.length with
              | some cause => exact .unfinished unread fault unfinished
              | none => exact .ended settled unread fault unfinished

/-- Reading shows nothing by itself. -/
theorem read_shown (s : Admission) : s.read.2.shown = s.shown := by
  generalize eq : s.read = reply
  have reads := s.read_reads
  rw [eq] at reads
  cases reads <;> rfl

/-! ## One request -/

def serve (s : Admission) : Request → Reply
  | .peek => s.peek
  | .take => s.take

/-- What a request can come to. -/
inductive Serves (s : Admission) (r : Request) : Reply → Prop where
  /-- What is shown, or the end, has been found before. -/
  | kept :
      s.shown.isSome = true ∨ s.finished = true →
      Serves s r (.ok s.shown, { s with shown := r.keeps s.shown })
  | found {item : Option Item} {next : Admission} :
      s.Fresh → s.read = (.ok item, next) →
      Serves s r (.ok item, { next with shown := r.keeps item, finished := item.isNone })
  | refused {d : Diagnostic} {next : Admission} :
      s.Fresh → s.read = (.error d, next) → Serves s r (.error d, next)

theorem serve_serves (s : Admission) (r : Request) : s.Serves r (s.serve r) := by
  by_cases kept : s.shown.isSome = true ∨ s.finished = true
  · have peek : s.peek = (.ok s.shown, s) := by
      rw [Admission.peek, if_pos (Bool.or_eq_true_iff.2 kept)]
    have here : s.serve r = (.ok s.shown, { s with shown := r.keeps s.shown }) := by
      cases r with
      | peek => exact peek
      | take =>
          show s.take = _
          rw [take, peek]
          rfl
    rw [here]
    exact .kept kept
  · rw [not_or, Bool.not_eq_true, Bool.not_eq_true, Option.isSome_eq_false_iff,
      Option.isNone_iff_eq_none] at kept
    cases read : s.read with
    | mk answer next =>
        cases answer with
        | ok item =>
            have here : s.serve r =
                (.ok item, { next with shown := r.keeps item, finished := item.isNone }) := by
              cases r with
              | peek => exact (Fresh.peek kept).trans (by rw [read]; rfl)
              | take =>
                  show s.take = _
                  rw [take, Fresh.peek kept, read]
                  rfl
            rw [here]
            exact .found kept read
        | error d =>
            have here : s.serve r = (.error d, next) := by
              cases r with
              | peek => exact (Fresh.peek kept).trans (by rw [read])
              | take =>
                  show s.take = _
                  rw [take, Fresh.peek kept, read]
            rw [here]
            exact .refused kept read

/-! ## Many requests -/

/-- The admission behind these requests, whatever they came to. -/
def after (s : Admission) : List Request → Admission
  | [] => s
  | r :: rest => (s.serve r).2.after rest

def answers (s : Admission) : List Request → List (Except Diagnostic (Option Item))
  | [] => []
  | r :: rest => (s.serve r).1 :: (s.serve r).2.answers rest

/-- The items handed out for these requests. -/
def handedOut (s : Admission) : List Request → List Item
  | [] => []
  | r :: rest => r.hands (s.serve r).1 ++ (s.serve r).2.handedOut rest

/-- The items read for these requests: those handed out, and the one shown. -/
def pulled (s : Admission) (rs : List Request) : List Item :=
  s.handedOut rs ++ (s.after rs).shown.toList

/-- None of these requests comes to a fault. -/
def Grants (s : Admission) (rs : List Request) : Prop :=
  ∀ answer ∈ s.answers rs, answer.isOk = true

instance (s : Admission) (rs : List Request) : Decidable (s.Grants rs) :=
  inferInstanceAs (Decidable (∀ answer ∈ s.answers rs, answer.isOk = true))

section

variable (s : Admission) (rs more : List Request) (r : Request)

theorem after_append : s.after (rs ++ more) = (s.after rs).after more := by
  induction rs generalizing s with
  | nil => rfl
  | cons r rest ih => exact ih _

theorem answers_append : s.answers (rs ++ more) = s.answers rs ++ (s.after rs).answers more := by
  induction rs generalizing s with
  | nil => rfl
  | cons r rest ih => exact congrArg _ (ih _)

theorem handedOut_append :
    s.handedOut (rs ++ more) = s.handedOut rs ++ (s.after rs).handedOut more := by
  induction rs generalizing s with
  | nil => rfl
  | cons r rest ih =>
      rw [List.cons_append, handedOut, ih, handedOut, List.append_assoc]
      rfl

theorem after_concat : s.after (rs ++ [r]) = ((s.after rs).serve r).2 := s.after_append rs [r]

theorem answers_concat : s.answers (rs ++ [r]) = s.answers rs ++ [((s.after rs).serve r).1] :=
  s.answers_append rs [r]

theorem pulled_concat :
    s.pulled (rs ++ [r]) = s.handedOut rs ++
      (r.hands ((s.after rs).serve r).1 ++ ((s.after rs).serve r).2.shown.toList) := by
  rw [pulled, handedOut_append, after_concat, List.append_assoc, handedOut, handedOut,
    List.append_nil]

end

/-- What each reading keeps, of those that come to an allowed answer, holds behind all requests with
such answers. -/
theorem pulled_induction (s : Admission) (allowed : Except Diagnostic (Option Item) → Prop)
    {motive : List Item → Admission → Prop} (start : motive s.shown.toList s)
    (reshow : ∀ items t shown finished, motive items t →
      motive items { t with shown := shown, finished := finished })
    (read : ∀ items t, motive items t → allowed t.read.1 →
      motive (items ++ Request.take.hands t.read.1) t.read.2)
    (rs : List Request) (all : ∀ answer ∈ s.answers rs, allowed answer) :
    motive (s.pulled rs) (s.after rs) := by
  induction rs using List.reverseRecOn with
  | nil => exact start
  | append_singleton rs r ih =>
      rw [answers_concat, List.forall_mem_append, List.forall_mem_singleton] at all
      have here := ih all.1
      rw [pulled_concat, after_concat]
      unfold pulled at here
      generalize s.after rs = t at all here
      generalize eq : t.serve r = reply at all
      have serves := t.serve_serves r
      rw [eq] at serves
      cases serves with
      | kept _ =>
          rw [r.hands_append_keeps]
          exact reshow _ t _ t.finished here
      | @found item next fresh found =>
          have step := read _ t here (found ▸ all.2)
          rw [fresh.1, Option.toList_none, List.append_nil, found] at step
          rw [r.hands_append_keeps]
          exact reshow _ next _ _ step
      | @refused d next fresh found =>
          have step := read _ t here (found ▸ all.2)
          have hidden : next.shown = none := by
            have shown := t.read_shown
            rw [found] at shown
            exact shown.trans fresh.1
          rw [found, fresh.1, Request.hands_error, List.append_nil] at step
          rw [hidden, Request.hands_error, List.nil_append]
          exact step

end Admission

end Criterion
