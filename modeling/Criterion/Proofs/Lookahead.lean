/-
# Criterion.Proofs.Lookahead — peeking leaves no trace

As long as nothing has been refused, an admission is where takes alone would have brought it, or it
shows what the next take would hand out there (`Glimpses`). A peek only leads from the one to the
other, and a take comes to the same from both. So the answer to a request is the one that a run of
takes alone has at that place (`peek_unseen`), whatever was peeked at before.
-/
import Criterion.Proofs.Settling

namespace Criterion

set_option autoImplicit false

namespace Admission

/-- The answer to the take behind `k` others, where nothing else is asked for. -/
def taken (s : Admission) (k : Nat) : Except Diagnostic (Option Item) :=
  (s.after (.replicate k .take)).take.1

/-- The admission `t` is `s`, or has only been shown what comes next there. -/
inductive Glimpses (s : Admission) : Admission → Prop where
  | same : Glimpses s s
  | shown {item : Option Item} {t : Admission} : s.peek = (.ok item, t) → Glimpses s t

theorem take_answer (s : Admission) : s.take.1 = s.peek.1 := by
  unfold take
  cases s.peek with
  | mk answer next => cases answer <;> rfl

section

variable {s t : Admission}

theorem Glimpses.take_eq (h : s.Glimpses t) : t.take = s.take := by
  cases h with
  | same => rfl
  | shown peek => exact take_of_peek peek

/-- The answer to any request is the one that a take has. -/
theorem Glimpses.serve_answer (h : s.Glimpses t) (r : Request) : (t.serve r).1 = s.take.1 := by
  rw [← h.take_eq]
  cases r with
  | peek => exact t.take_answer.symm
  | take => rfl

theorem Glimpses.peek (h : s.Glimpses t) (granted : t.peek.1.isOk = true) :
    s.Glimpses t.peek.2 := by
  cases h with
  | same =>
      cases eq : s.peek with
      | mk answer next =>
          rw [eq] at granted
          cases answer with
          | ok item => exact .shown eq
          | error d => cases granted
  | shown peek =>
      rw [peek_of_peek peek]
      exact .shown peek

theorem grants_concat (rs : List Request) (r : Request) :
    s.Grants (rs ++ [r]) ↔ s.Grants rs ∧ ((s.after rs).serve r).1.isOk = true := by
  rw [Grants, answers_concat, List.forall_mem_append, List.forall_mem_singleton]
  rfl

/-- Behind requests that were granted an admission is where their takes alone lead, peeks apart. -/
theorem glimpses_after {rs : List Request} (granted : s.Grants rs) :
    (s.after (.replicate (rs.count .take) .take)).Glimpses (s.after rs) := by
  induction rs using List.reverseRecOn with
  | nil => exact .same
  | append_singleton rs r ih =>
      rw [grants_concat] at granted
      have here := ih granted.1
      rw [List.count_append, after_concat]
      cases r with
      | peek => exact here.peek granted.2
      | take =>
          have one : [Request.take].count .take = 1 := rfl
          rw [one, List.replicate_succ', after_concat]
          show Glimpses (take _).2 (take _).2
          rw [here.take_eq]
          exact .same

/-- Behind requests that were granted the next answer is that to the take behind as many takes. -/
theorem serve_answer_of_grants {rs : List Request} (granted : s.Grants rs) (r : Request) :
    ((s.after rs).serve r).1 = s.taken (rs.count .take) :=
  (glimpses_after granted).serve_answer r

/-- What can be peeked at once can be again. -/
theorem grants_peeks {rs : List Request} (granted : s.Grants rs)
    (shows : (s.after rs).peek.1.isOk = true) (n : Nat) :
    s.Grants (rs ++ .replicate n .peek) := by
  induction n with
  | zero => rwa [List.replicate_zero, List.append_nil]
  | succ n ih =>
      have first := serve_answer_of_grants granted .peek
      have again := serve_answer_of_grants ih .peek
      rw [List.count_append, List.count_replicate, if_neg (by decide), Nat.add_zero, ← first]
        at again
      rw [List.replicate_succ', ← List.append_assoc, grants_concat, again]
      exact ⟨ih, shows⟩

/-- What is shown is handed out next, however often it is peeked at before. -/
theorem take_of_peeks {rs : List Request} (granted : s.Grants rs) {item : Option Item}
    (shown : (s.after rs).peek.1 = .ok item) (n : Nat) :
    (s.after (rs ++ .replicate n .peek)).take.1 = .ok item := by
  have shows : (s.after rs).peek.1.isOk = true := by
    rw [shown]
    rfl
  have first := serve_answer_of_grants granted .peek
  have next := serve_answer_of_grants (grants_peeks granted shows n) .take
  rw [List.count_append, List.count_replicate, if_neg (by decide), Nat.add_zero, ← first] at next
  exact next.trans shown

end

/-- A peek makes no difference to what follows, as long as nothing has been refused: every request
has the answer that the next take has where nothing but takes are asked for, be it a token, the end
or a fault; what a peek shows is handed out next; and behind the end there is only the end. -/
theorem peek_unseen (g : Grammar) (p : Punctuation) (source : String) (rs : List Request)
    (granted : (start g p source).Grants rs) :
    let s := start g p source
    (∀ r, ((s.after rs).serve r).1 = s.taken (rs.count .take)) ∧
    (∀ item n, (s.after rs).peek.1 = .ok item →
      (s.after (rs ++ .replicate n .peek)).take.1 = .ok item) ∧
    (.ok none ∈ s.answers rs → ∀ more, ∀ found ∈ (s.after rs).answers more, found = .ok none) := by
  intro s
  refine ⟨serve_answer_of_grants granted, ?_, ?_⟩
  · intro item n shown
    exact take_of_peeks granted shown n
  · intro ended
    exact (settled_of_mem_answers settled_of_serve_none ended).eq_of_mem_answers

/-- The fault behind two peeks and a take is that of the second take; an end that has been shown
stays. -/
theorem peek_unseen_twice :
    ((start .arithmetic .standard "x y").after [.peek, .peek, .take]).peek.1 =
        (start .arithmetic .standard "x y").taken 1 ∧
      ((start .arithmetic .standard "x").after ([.peek] ++ .replicate 2 .peek)).take.1 =
        .ok (some ⟨.value, ⟨.name "x", "x", .zero, ⟨1, 1⟩, true, true⟩⟩) ∧
      ∀ more, ∀ found ∈ ((start .arithmetic .standard "x").after [.take, .peek]).answers more,
        found = .ok none :=
  ⟨(peek_unseen .arithmetic .standard "x y" [.peek, .peek, .take] (by decide +kernel)).1 .peek,
    (peek_unseen .arithmetic .standard "x" [.peek] (by decide +kernel)).2.1 _ 2
      (by decide +kernel),
    (peek_unseen .arithmetic .standard "x" [.take, .peek] (by decide +kernel)).2.2
      (by decide +kernel)⟩

end Admission

end Criterion
