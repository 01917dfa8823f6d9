/-
# Criterion.Proofs.Settling — where an admission comes to rest

Behind a refusal an admission goes on with the next token, behind a fault in the letters with the
check of the end, and behind an operator that lacks white space it does not go on at all. In each
way it comes to rest: a reading takes away a token or a fault that is still to come (`pending`) or
leaves everything as it was, and then every request has the same answer (`Settled`).

* `Settled.serve`: an answer that has settled stays.
* `exists_settled`: it has settled behind as many takes as there was something to come.
* `answers_settle`: so it has behind one take more than the text has tokens, and as soon as white
  space behind an operator was missed.
-/
import Criterion.Proofs.Requests
import Mathlib.Control.Monad.Basic

namespace Criterion

set_option autoImplicit false

namespace Admission

/-! ## Rest -/

/-- Every request has this answer from here on. -/
inductive Settled (s : Admission) : Except Diagnostic (Option Item) → Prop where
  /-- The end has been handed out or shown. -/
  | done : s.shown = none → s.finished = true → Settled s (.ok none)
  /-- The end comes next. -/
  | ending : s.Fresh → s.read = (.ok none, s) → Settled s (.ok none)
  /-- Reading comes to a fault and takes nothing away. -/
  | stuck {d : Diagnostic} : s.Fresh → s.read = (.error d, s) → Settled s (.error d)

section

variable {s : Admission} {answer : Except Diagnostic (Option Item)}

theorem Settled.serve (h : s.Settled answer) (r : Request) :
    (s.serve r).1 = answer ∧ (s.serve r).2.Settled answer := by
  generalize eq : s.serve r = reply
  have serves := s.serve_serves r
  rw [eq] at serves
  cases h with
  | done hidden finished =>
      cases serves with
      | kept _ =>
          rw [hidden, r.keeps_none]
          exact ⟨rfl, .done rfl finished⟩
      | found fresh _ => rw [fresh.2] at finished; cases finished
      | refused fresh _ => rw [fresh.2] at finished; cases finished
  | ending fresh read =>
      cases serves with
      | kept kept => simp [fresh.1, fresh.2] at kept
      | found _ found =>
          rw [read] at found
          cases found
          exact ⟨rfl, .done r.keeps_none rfl⟩
      | refused _ found => rw [read] at found; cases found
  | stuck fresh read =>
      cases serves with
      | kept kept => simp [fresh.1, fresh.2] at kept
      | found _ found => rw [read] at found; cases found
      | refused _ found =>
          rw [read] at found
          cases found
          exact ⟨rfl, .stuck fresh read⟩

theorem Settled.after (h : s.Settled answer) (rs : List Request) :
    (s.after rs).Settled answer := by
  induction rs generalizing s with
  | nil => exact h
  | cons r rest ih => exact ih (h.serve r).2

theorem Settled.eq_of_mem_answers (h : s.Settled answer) (rs : List Request) :
    ∀ found ∈ s.answers rs, found = answer := by
  induction rs generalizing s with
  | nil => exact fun found mem => (by cases mem)
  | cons r rest ih => exact List.forall_mem_cons.2 ⟨(h.serve r).1, ih (h.serve r).2⟩

/-- No token comes any more. -/
theorem Settled.answer_cases (h : s.Settled answer) :
    answer = .ok none ∨ ∃ d, answer = .error d := by
  cases h with
  | done _ _ => exact .inl rfl
  | ending _ _ => exact .inl rfl
  | stuck _ _ => exact .inr ⟨_, rfl⟩

/-- An answer that settles the admission once settles it for good. -/
theorem settled_of_mem_answers
    (settles : ∀ (t : Admission) r, (t.serve r).1 = answer → (t.serve r).2.Settled answer)
    {rs : List Request} (mem : answer ∈ s.answers rs) : (s.after rs).Settled answer := by
  induction rs generalizing s with
  | nil => cases mem
  | cons r rest ih =>
      rcases List.mem_cons.1 mem with here | later
      · exact (settles s r here.symm).after rest
      · exact ih later

theorem settled_of_serve_none (s : Admission) (r : Request) (ended : (s.serve r).1 = .ok none) :
    (s.serve r).2.Settled (.ok none) := by
  generalize eq : s.serve r = reply at ended
  have serves := s.serve_serves r
  rw [eq] at serves
  cases serves with
  | kept kept =>
      have hidden : s.shown = none := Except.ok.inj ended
      rw [hidden, Option.isSome_none, Bool.false_eq_true, false_or] at kept
      rw [hidden, r.keeps_none]
      exact .done rfl kept
  | found fresh read =>
      cases ended
      exact .done r.keeps_none rfl
  | refused _ _ => cases ended

theorem settled_of_serve_crampedAfter {op : String} {i : Nat} (s : Admission) (r : Request)
    (missed : (s.serve r).1 = .error (.grammar (.crampedAfter op i))) :
    (s.serve r).2.Settled (.error (.grammar (.crampedAfter op i))) := by
  generalize eq : s.serve r = reply at missed
  have serves := s.serve_serves r
  rw [eq] at serves
  cases serves with
  | kept _ => cases missed
  | found _ _ => cases missed
  | refused fresh read =>
      cases missed
      have reads := s.read_reads
      rw [read] at reads
      -- No other check than that of the last token misses white space behind it.
      cases reads with
      | cramped _ => exact .stuck fresh read
      | refused _ _ unfit _ => cases Context.check_of_unfit unfit
      | unfinished _ _ unfinished => cases Context.check_of_unfinished unfinished

end

/-! ## The way there -/

/-- What is still to come: tokens, and a fault of the letters behind them. -/
def pending (s : Admission) : Nat := s.remaining + s.fault.toList.length

/-- A reading takes away something that is still to come, if it changes anything. -/
theorem settled_or_read_pending {s : Admission} (fresh : s.Fresh) :
    (∃ answer, s.Settled answer) ∨ s.read.2.pending + 1 = s.pending := by
  generalize eq : s.read = reply
  have reads := s.read_reads
  rw [eq] at reads
  cases reads with
  | cramped _ => exact .inl ⟨_, .stuck fresh eq⟩
  | refused _ unread _ _ =>
      refine .inr ?_
      simp only [pending, remaining, unread, List.length_cons]
      omega
  | admitted unread _ =>
      refine .inr ?_
      simp only [pending, remaining, unread, List.length_cons]
      omega
  | misread _ fault =>
      refine .inr ?_
      simp only [pending, remaining, fault, Option.toList_some, Option.toList_none,
        List.length_nil, List.length_singleton, Nat.add_zero]
  | unfinished _ _ _ => exact .inl ⟨_, .stuck fresh eq⟩
  | ended _ _ _ _ => exact .inl ⟨_, .ending fresh eq⟩

theorem settled_of_pending {s : Admission} (empty : s.pending = 0) :
    ∃ answer, s.Settled answer := by
  have hidden : s.shown = none := by
    cases shown : s.shown with
    | none => rfl
    | some item => simp [pending, remaining, shown] at empty
  cases finished : s.finished with
  | true => exact ⟨_, .done hidden finished⟩
  | false =>
      rcases settled_or_read_pending ⟨hidden, finished⟩ with settled | less
      · exact settled
      · omega

/-- What a take hands out, drops or reports is not to come any more. -/
theorem settled_or_serve_pending (s : Admission) (r : Request) :
    (∃ answer, (s.serve r).2.Settled answer) ∨
      (s.serve r).2.pending + [r].count .take ≤ s.pending := by
  by_cases settled : ∃ answer, s.Settled answer
  · obtain ⟨answer, settled⟩ := settled
    exact .inl ⟨answer, (settled.serve r).2⟩
  have serves := s.serve_serves r
  generalize s.serve r = reply at serves ⊢
  cases serves with
  | kept kept =>
      cases shown : s.shown with
      | none =>
          rw [shown, Option.isSome_none, Bool.false_eq_true, false_or] at kept
          exact absurd ⟨_, .done shown kept⟩ settled
      | some item =>
          have most := r.length_keeps_le (some item)
          refine .inr ?_
          simp only [pending, remaining, shown, Option.toList_some, List.length_singleton]
          omega
  | @found item next fresh read =>
      have less := (settled_or_read_pending fresh).resolve_left settled
      have most := r.length_keeps_le item
      rw [read] at less
      refine .inr ?_
      simp only [pending, remaining] at less ⊢
      omega
  | refused fresh read =>
      have less := (settled_or_read_pending fresh).resolve_left settled
      rw [read] at less
      have one : [r].count .take ≤ 1 := List.count_le_length
      refine .inr ?_
      simp only at less ⊢
      omega

theorem settled_or_after_pending (s : Admission) (rs : List Request) :
    (∃ answer, (s.after rs).Settled answer) ∨
      (s.after rs).pending + rs.count .take ≤ s.pending := by
  induction rs generalizing s with
  | nil => exact .inr (Nat.le_refl _)
  | cons r rest ih =>
      rcases s.settled_or_serve_pending r with ⟨answer, settled⟩ | less
      · exact .inl ⟨answer, settled.after rest⟩
      · rcases ih (s.serve r).2 with settled | further
        · exact .inl settled
        · refine .inr ?_
          have counted : (r :: rest).count .take = [r].count .take + rest.count .take := by
            rw [← List.count_append, List.singleton_append]
          rw [after, counted]
          omega

/-- As many takes as there is something to come leave nothing to come. -/
theorem exists_settled {s : Admission} {rs : List Request} (enough : s.pending ≤ rs.count .take) :
    ∃ answer, (s.after rs).Settled answer := by
  rcases s.settled_or_after_pending rs with settled | less
  · exact settled
  · exact settled_of_pending (by omega)

theorem pending_start (g : Grammar) (p : Punctuation) (source : String) :
    (start g p source).pending ≤ (Scan.ofText p source).tokens.length + 1 := by
  show (Scan.ofText p source).tokens.length + 0 + (Scan.ofText p source).fault.toList.length ≤ _
  cases (Scan.ofText p source).fault <;> simp

/-- Behind one take more than a text has tokens all answers are the same, and no token is among them;
and they are as soon as one was that an operator lacks white space behind it. -/
theorem answers_settle (g : Grammar) (p : Punctuation) (source : String) :
    (∀ rs : List Request, (Scan.ofText p source).tokens.length + 1 ≤ rs.count .take →
      ∃ answer, (answer = .ok none ∨ ∃ d, answer = .error d) ∧
        ∀ more, ∀ found ∈ ((start g p source).after rs).answers more, found = answer) ∧
    (∀ rs op i, .error (.grammar (.crampedAfter op i)) ∈ (start g p source).answers rs →
      ∀ more, ∀ found ∈ ((start g p source).after rs).answers more,
        found = .error (.grammar (.crampedAfter op i))) := by
  constructor
  · intro rs enough
    obtain ⟨answer, settled⟩ := exists_settled (Nat.le_trans (pending_start g p source) enough)
    exact ⟨answer, settled.answer_cases, settled.eq_of_mem_answers⟩
  · intro rs op i missed
    exact (settled_of_mem_answers settled_of_serve_crampedAfter missed).eq_of_mem_answers

/-- Three tokens, one of them refused, and a character that starts none are behind four takes; what
is left to say is that `(` is open. Nothing behind `*` is ever read. -/
theorem answers_settle_unclosed :
    (∃ answer, (answer = .ok none ∨ ∃ d, answer = .error d) ∧
      ∀ more, ∀ found ∈ ((start .arithmetic .standard "(1 2 #").after
        [.take, .peek, .take, .take, .take]).answers more, found = answer) ∧
    ∀ more, ∀ found ∈ ((start .arithmetic .standard "x *(y").after
        [.take, .peek, .take, .peek]).answers more,
      found = .error (.grammar (.crampedAfter "*" 3)) :=
  ⟨(answers_settle .arithmetic .standard "(1 2 #").1 _ (by decide +kernel),
    (answers_settle .arithmetic .standard "x *(y").2 _ _ _ (by decide +kernel)⟩

end Admission

end Criterion
