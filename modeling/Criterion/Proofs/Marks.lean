/-
# Criterion.Proofs.Marks — a choice of punctuation is a set

Whatever is offered, in whatever order and how often, what is chosen of it is listed once and in
ascending order. So choices are equal just where they hold the same characters
(`ofList_eq_iff`), and to offer what has been chosen changes nothing (`ofList_marks`).

Of the characters with a meaning of their own only the `-` can be chosen: no other starts an
operator (`eq_minus_of_contains`), and none is a letter, a number, `_`, white space or a
parenthesis.
-/
import Criterion.Proofs.Letters

namespace Criterion

set_option autoImplicit false

namespace Punctuation

/-! ## What is chosen -/

/-- ASCII punctuation is printable and neither a letter nor a digit. -/
theorem mem_ascii_iff {c : Char} :
    c ∈ ascii ↔ '!' ≤ c ∧ c ≤ '~' ∧ c.isAlphanum = false := by
  constructor
  · intro mem
    have all : ascii.all (fun c => '!' ≤ c && c ≤ '~' && !c.isAlphanum) = true := by decide +kernel
    simpa [and_assoc] using List.all_eq_true.1 all c mem
  · rintro ⟨low, high, plain⟩
    -- The code points up to that of `~` are looked up one by one.
    have all : ((List.range 127).map Char.ofNat).all (fun c =>
        !decide ('!' ≤ c) || c.isAlphanum || ascii.contains c) = true := by decide +kernel
    have code : c.toNat < 127 := Nat.lt_succ_of_le high
    have known := List.all_eq_true.1 all c
      (List.mem_map.2 ⟨c.toNat, List.mem_range.2 code, Char.ofNat_toNat c⟩)
    simpa [low, plain] using known

theorem isAdmissible_iff_ascii {c : Char} :
    isAdmissible c = true ↔
      ('!' ≤ c ∧ c ≤ '~' ∧ c.isAlphanum = false) ∧ c ≠ '_' ∧ c ∉ reserved := by
  rw [← mem_ascii_iff]
  simp [isAdmissible, and_assoc]

theorem mem_marks_ofList {cs : List Char} {c : Char} :
    c ∈ (ofList cs).marks ↔ c ∈ cs ∧ isAdmissible c = true := by
  rw [ofList, mem_eraseReps, mem_sortMarks, List.mem_filter]

/-! ## Equal choices -/

theorem ofList_eq_iff {cs ds : List Char} :
    ofList cs = ofList ds ↔ ∀ c, (ofList cs).contains c = (ofList ds).contains c := by
  constructor
  · intro same c
    rw [same]
  · exact eq_of_contains

/-- Neither the order of what is offered nor how often it is matters. -/
theorem ofList_congr {cs ds : List Char} (same : ∀ c, c ∈ cs ↔ c ∈ ds) : ofList cs = ofList ds := by
  refine ofList_eq_iff.2 fun c => ?_
  rw [contains_ofList, contains_ofList, Bool.eq_iff_iff]
  simp only [Bool.and_eq_true, List.contains_iff_mem, same]

/-- A choice is chosen from itself. -/
theorem ofList_marks (p : Punctuation) : ofList p.marks = p := by
  refine eq_of_contains fun c => ?_
  rw [contains_ofList, contains, Bool.and_eq_right_iff_imp]
  intro mem
  exact p.admissible c (List.contains_iff_mem.1 mem)

/-! ## What no choice holds -/

section

variable {p : Punctuation} {c : Char} (mark : p.contains c = true)

include mark

theorem ne_of_contains {d : Char} (left_out : p.contains d = false) : c ≠ d := by
  rintro rfl
  rw [left_out] at mark
  cases mark

theorem isBlank_of_contains : Text.isBlank c = false :=
  Bool.eq_false_iff.2 fun blank => ne_of_contains mark (p.contains_of_isBlank blank) rfl

/-- Only the `-` is both an operator and a character to choose. -/
theorem eq_minus_of_contains {sign : Sign} (starts : sign.text.toList.head? = some c) :
    sign = .minus := by
  have all : Sign.all.all (fun sign =>
      sign == .minus || !sign.text.toList.head?.any isAdmissible) = true := by decide
  have known := List.all_eq_true.1 all sign sign.mem_all
  simpa [starts, isAdmissible_of_contains mark] using known

end

/-- A choice lists the ASCII punctuation that was offered, less `_` and what is reserved, in
ascending order. So it is a set: it is equal to a choice of the same characters, whatever else was
offered and in whatever order, and it is chosen from itself. Nothing in it is a letter, a number,
`_`, white space, a parenthesis or the start of an operator other than `-`. -/
theorem ofList_canonical :
    (∀ cs : List Char, (ofList cs).marks.Pairwise (· < ·) ∧
      ∀ c, c ∈ (ofList cs).marks ↔
        c ∈ cs ∧ ('!' ≤ c ∧ c ≤ '~' ∧ c.isAlphanum = false) ∧ c ≠ '_' ∧ c ∉ reserved) ∧
    (∀ cs ds : List Char,
      (ofList cs = ofList ds ↔ ∀ c, (ofList cs).contains c = (ofList ds).contains c) ∧
      ((∀ c, c ∈ cs ↔ c ∈ ds) → ofList cs = ofList ds)) ∧
    (∀ p : Punctuation, ofList p.marks = p) ∧
    ∀ (p : Punctuation) (c : Char), p.contains c = true →
      Text.isAlphabetic c = false ∧ Text.isNumeric c = false ∧ c ≠ '_' ∧
      Text.isBlank c = false ∧ c ≠ '(' ∧ c ≠ ')' ∧
      ∀ sign : Sign, sign.text.toList.head? = some c → sign = .minus := by
  refine ⟨fun cs => ⟨eraseReps_pairwise (sortMarks_pairwise _), fun c => ?_⟩,
    fun cs ds => ⟨ofList_eq_iff, ofList_congr⟩, ofList_marks, fun p c mark => ?_⟩
  · rw [mem_marks_ofList, isAdmissible_iff_ascii]
  · obtain ⟨letter, number, line⟩ :=
      Lexeme.not_letter_of_isAdmissible (isAdmissible_of_contains mark)
    exact ⟨letter, number, line, isBlank_of_contains mark,
      ne_of_contains mark (p.contains_of_paren (by decide)),
      ne_of_contains mark (p.contains_of_paren (by decide)),
      fun sign starts => eq_minus_of_contains mark starts⟩

/-- The reserved `+`, the `_` and the letter are left out, and the others do not repeat. -/
theorem ofList_canonical_shuffled :
    ofList ['.', '+', '-', '_', '.', 'x', '$'] = ofList ['$', 'x', '-', '_', '.', '+'] ∧
      (ofList ['.', '+', '-', '_', '.', 'x', '$']).marks = ['$', '-', '.'] ∧
      ∀ sign : Sign, sign.text.toList.head? = some '-' → sign = .minus := by
  obtain ⟨_, equal, _, plain⟩ := ofList_canonical
  refine ⟨(equal _ _).2 fun c => ?_, by decide +kernel, ?_⟩
  · simp only [List.mem_cons, List.not_mem_nil, or_false]
    grind
  · obtain ⟨_, _, _, _, _, _, minus⟩ :=
      plain (ofList ['.', '+', '-', '_', '.', 'x', '$']) '-' (by decide +kernel)
    exact minus

end Punctuation

end Criterion
