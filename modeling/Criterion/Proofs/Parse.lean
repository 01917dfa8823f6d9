/-
# Criterion.Proofs.Parse — the tree of a text, or its first fault

Arranging asks an admission for tokens as it needs them and could stop early, miss a fault behind
the place where it stops, or object to a token by itself. It does none of this: the answer for a
text is the one that handing out its tokens to the end gives.

* `parse_fault_iff_refused`: a text has exactly the fault at which handing out its tokens stops, and
  a tree exactly if that stops nowhere; then every token is in the tree, and no fault is ever one of
  the arrangement's own.
* `parse_layered`: the tree is the one of the grammar in layers, which has no other.
-/
import Criterion.Formula
import Criterion.Proofs.Arrangement

namespace Criterion

set_option autoImplicit false

/-- The tokens of a scan in their roles. -/
def Scan.items (s : Scan) : List Item := Item.inOrder none s.tokens

theorem Admission.viable_start (g : Grammar) (p : Punctuation) (source : String) :
    (start g p source).admitted.Viable .start := by
  have stands := Context.stands_start g
  obtain ⟨last, walked, done⟩ := stands.walk_granted source.toList.length
    (Scan.ofText p source).fault (Scan.ofText p source).tokens
  rw [admitted_start]
  refine ⟨fun item mem => ?_, last, walked, done⟩
  exact Item.exists_ofWord ((Context.granted_isPrefix _ _).subset mem)

namespace Arrangement

theorem conclude_of_fault {a : Arrangement} {d : Diagnostic} (h : a = fault d) (left : a ≠ spent) :
    a.conclude left = .error d := by
  subst h
  rfl

theorem conclude_of_tree {a : Arrangement} {e : Expr} {rest : Admission} (h : a = tree e rest)
    (left : a ≠ spent) : a.conclude left = .ok e := by
  subst h
  rfl

end Arrangement

/-- Arranging viable tokens comes to their fault or to a tree of all of them. -/
theorem Admission.arrange_cases {s : Admission} (viable : s.admitted.Viable .start) :
    (∃ d, s.arrange = .fault d ∧ s.admitted.fault = some d) ∨
      ∃ e rest, s.arrange = .tree e rest ∧ s.admitted.fault = none ∧
        Layered 0 s.admitted.items e ∧ rest.admitted = ⟨[], none⟩ := by
  have answer := Arrangement.whole_answers (3 * s.remaining + 3) viable
  change s.arrange.Answers _ _ at answer
  cases arranged : s.arrange with
  | tree e rest =>
      rw [arranged] at answer
      obtain ⟨used, items, fault, layered, empty⟩ := answer
      rw [empty, List.append_nil] at items
      exact .inr ⟨e, rest, rfl, by rw [← fault, empty], items ▸ layered, empty⟩
  | fault d =>
      rw [arranged] at answer
      exact .inl ⟨d, rfl, answer⟩
  | stray cause =>
      rw [arranged] at answer
      exact answer.elim
  | spent => exact absurd arranged s.arrange_ne_spent

namespace Formula

section

variable (g : Grammar) (p : Punctuation) (source : String)

/-- A text without fault has had all of its tokens handed out. -/
theorem admitted_items {g : Grammar} {p : Punctuation} {source : String}
    (h : (Admission.start g p source).admitted.fault = none) :
    (Admission.start g p source).admitted.items = (Scan.ofText p source).items ∧
      (Scan.ofText p source).fault = none := by
  rw [Admission.admitted_start] at h ⊢
  have faultless := ((Context.stands_start g).verdict_eq_none_iff _ _ _).1 h
  exact ⟨Context.granted_of_verdict h, faultless.readable⟩

/-- Parsing comes to the fault of the tokens, or to the tree of all of them. -/
theorem parse_cases :
    (∃ d, parse g p source = .error d ∧
      (Admission.start g p source).arrange = .fault d ∧
      (Admission.start g p source).admitted.fault = some d) ∨
    ∃ e rest, parse g p source = .ok e ∧
      (Admission.start g p source).arrange = .tree e rest ∧
      (Admission.start g p source).admitted.fault = none ∧ rest.admitted = ⟨[], none⟩ ∧
      Layered 0 (Scan.ofText p source).items e := by
  rcases Admission.arrange_cases (Admission.viable_start g p source) with
    ⟨d, arranged, fault⟩ | ⟨e, rest, arranged, fault, layered, empty⟩
  · exact .inl ⟨d, Arrangement.conclude_of_fault arranged _, arranged, fault⟩
  · exact .inr ⟨e, rest, Arrangement.conclude_of_tree arranged _, arranged, fault, empty,
      (admitted_items fault).1 ▸ layered⟩

theorem parse_eq_error_iff (d : Diagnostic) :
    parse g p source = .error d ↔ (Admission.start g p source).admitted.fault = some d := by
  rcases parse_cases g p source with ⟨d', parsed, _, fault⟩ | ⟨e, rest, parsed, _, fault, _⟩
  · rw [parsed, fault, Except.error.injEq, Option.some.injEq]
  · rw [parsed, fault]
    exact iff_of_false (fun eq => by cases eq) (fun eq => by cases eq)

theorem exists_parse_eq_ok_iff :
    (∃ e, parse g p source = .ok e) ↔ (Admission.start g p source).admitted.fault = none := by
  rcases parse_cases g p source with ⟨d, parsed, _, fault⟩ | ⟨e, rest, parsed, _, fault, _⟩
  · rw [parsed, fault]
    exact iff_of_false (fun ⟨_, eq⟩ => by cases eq) (fun eq => by cases eq)
  · exact iff_of_true ⟨e, parsed⟩ fault

theorem layered_of_parse {g : Grammar} {p : Punctuation} {source : String} {e : Expr}
    (h : parse g p source = .ok e) : Layered 0 (Scan.ofText p source).items e := by
  rcases parse_cases g p source with ⟨d, parsed, _⟩ | ⟨e', rest, parsed, _, _, _, layered⟩
  · rw [parsed] at h
    cases h
  · rw [parsed] at h
    cases h
    exact layered

theorem parse_of_compile {g : Grammar} {p : Punctuation} {source : String} {f : Formula}
    (h : compile g p source = .ok f) : parse g p source = .ok f.root := by
  unfold compile at h
  cases parsed : parse g p source with
  | error d => rw [parsed] at h; cases h
  | ok e => rw [parsed] at h; cases h; rfl

/-- What is wrong with a text is what is wrong with its tokens. -/
theorem compile_eq_error_iff (d : Diagnostic) :
    compile g p source = .error d ↔
      (Context.start g).verdict source.toList.length (Scan.ofText p source).fault
        (Scan.ofText p source).tokens = some d := by
  have refused := parse_eq_error_iff g p source d
  rw [Admission.admitted_start] at refused
  rw [← refused, compile]
  cases parse g p source with
  | error d' => exact ⟨fun eq => (by cases eq; rfl), fun eq => (by cases eq; rfl)⟩
  | ok e => exact iff_of_false (fun eq => by cases eq) (fun eq => by cases eq)

theorem exists_compile_eq_ok_iff :
    (∃ f, compile g p source = .ok f) ↔
      (Context.start g).verdict source.toList.length (Scan.ofText p source).fault
        (Scan.ofText p source).tokens = none := by
  have granted := exists_parse_eq_ok_iff g p source
  rw [Admission.admitted_start] at granted
  rw [← granted, compile]
  cases parse g p source with
  | error d => exact iff_of_false (fun ⟨_, eq⟩ => by cases eq) (fun ⟨_, eq⟩ => by cases eq)
  | ok e => exact iff_of_true ⟨_, rfl⟩ ⟨_, rfl⟩

section

variable {g : Grammar} {p : Punctuation} {source : String} {f : Formula}

theorem verdict_of_compile (h : compile g p source = .ok f) :
    (Context.start g).verdict source.toList.length (Scan.ofText p source).fault
      (Scan.ofText p source).tokens = none :=
  (exists_compile_eq_ok_iff g p source).1 ⟨f, h⟩

theorem readable_of_compile (h : compile g p source = .ok f) :
    (Scan.ofText p source).fault = none :=
  Context.readable_of_verdict (verdict_of_compile h)

theorem layered_of_compile (h : compile g p source = .ok f) :
    Layered 0 (Scan.ofText p source).items f.root :=
  layered_of_parse (parse_of_compile h)

end

/-- Parsing fails exactly as handing out the tokens does, and succeeds exactly if they are all
handed out; then none is left. No fault is one that only the arrangement sees. -/
theorem parse_fault_iff_refused :
    (∀ d, parse g p source = .error d ↔
      (Admission.start g p source).admitted.fault = some d) ∧
    ((∃ e, parse g p source = .ok e) ↔ (Admission.start g p source).admitted.fault = none) ∧
    ((∃ e, parse g p source = .ok e) ↔
      (Scan.ofText p source).fault = none ∧
        (Admission.start g p source).admitted.items.map Item.token =
          (Scan.ofText p source).tokens ∧
        ∃ e rest, (Admission.start g p source).arrange = .tree e rest ∧
          rest.admitted = ⟨[], none⟩) ∧
    ∀ cause, (Admission.start g p source).arrange ≠ .stray cause := by
  refine ⟨parse_eq_error_iff g p source, exists_parse_eq_ok_iff g p source, ?_, ?_⟩
  · rcases parse_cases g p source with ⟨d, parsed, arranged, _⟩ |
      ⟨e, rest, parsed, arranged, fault, empty, _⟩
    · rw [parsed, arranged]
      exact iff_of_false (fun ⟨_, eq⟩ => by cases eq) (fun ⟨_, _, _, _, eq, _⟩ => by cases eq)
    · obtain ⟨items, readable⟩ := admitted_items fault
      refine iff_of_true ⟨e, parsed⟩ ⟨readable, ?_, e, rest, arranged, empty⟩
      rw [items]
      exact Item.map_token_inOrder none _
  · intro cause stray
    rcases parse_cases g p source with ⟨d, _, arranged, _⟩ | ⟨e, rest, _, arranged, _⟩ <;>
      cases arranged.symm.trans stray

end

/-- The tree of a text is its tree in the layered grammar, which gives no tokens two trees. -/
theorem parse_layered {g : Grammar} {p : Punctuation} {source : String} {e : Expr}
    (h : parse g p source = .ok e) :
    Layered 0 (Scan.ofText p source).items e ∧
      ∀ items e₁ e₂, Layered 0 items e₁ → Layered 0 items e₂ → e₁ = e₂ :=
  ⟨layered_of_parse h, fun _ _ _ first second => first.eq_of_layered second⟩

theorem eq_ok_of_toOption {ε α : Type} {answer : Except ε α} {a : α}
    (h : answer.toOption = some a) : answer = .ok a := by
  cases answer with
  | error fault => cases h
  | ok b => rw [Option.some.inj h]

/-- Subtraction groups to the left, a product binds tighter, and parentheses leave no node. -/
theorem parse_layered_difference :
    Layered 0 (Scan.ofText .standard "2 - -(x - 1) - 3 * !y").items
        (.binary .subtract
          (.binary .subtract (.number 2) (.unary .negate (.binary .subtract (.var "x") (.number 1))))
          (.binary .multiply (.number 3) (.unary .not (.var "y")))) ∧
      ∀ items e₁ e₂, Layered 0 items e₁ → Layered 0 items e₂ → e₁ = e₂ :=
  parse_layered (g := .arithmetic) (eq_ok_of_toOption (by decide +kernel))

end Formula

end Criterion
