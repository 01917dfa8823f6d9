/-
# Criterion.Punctuation — the punctuation a name may contain

Names such as `t-1` or `ammo.full` contain punctuation. Which characters may do so is a choice; a
`Punctuation` is such a choice. Only ASCII punctuation without a meaning of its own can be chosen:
`_` belongs to every name anyway, and brackets, quotes and the characters of operators are reserved.
The hyphen is not, though it is also an operator.

The marks are kept in ascending order, so two choices of the same characters are equal
(`eq_of_contains`), and `contains_ofList` says which of the characters offered are taken. `ofList`
sorts those and drops the neighbours that are equal, which leaves each of them once as equal
characters are neighbours in ascending order (`eraseReps_pairwise`).
-/

namespace Criterion

set_option autoImplicit false

namespace Punctuation

/-- Characters with a fixed meaning. -/
def reserved : List Char :=
  ['~', '!', '%', '^', '&', '*', '(', ')', '+', '=', '[', ']', '\x7b', '\x7d', '|', ':', ';',
   '\x27', '\x22', '<', '>', '?', ',', '/']

/-- The printable ASCII characters other than letters, digits and the space, in ascending order. -/
def ascii : List Char :=
  ['!', '\x22', '#', '$', '%', '&', '\x27', '(', ')', '*', '+', ',', '-', '.', '/', ':', ';', '<',
   '=', '>', '?', '@', '[', '\\', ']', '^', '_', '\x60', '\x7b', '|', '\x7d', '~']

def isAdmissible (c : Char) : Bool := ascii.contains c && c != '_' && !reserved.contains c

end Punctuation

/-- A set of characters that may stand inside a name. -/
structure Punctuation where
  marks : List Char
  ascending : marks.Pairwise (· < ·)
  admissible : ∀ c ∈ marks, Punctuation.isAdmissible c = true
deriving DecidableEq

namespace Punctuation

def contains (p : Punctuation) (c : Char) : Bool := p.marks.contains c

/-! ## Ascending order -/

/-- `c` put in its place among characters in ascending order. -/
def insertMark (c : Char) : List Char → List Char
  | [] => [c]
  | d :: rest => if c ≤ d then c :: d :: rest else d :: insertMark c rest

/-- The characters in ascending order, each as often as it is offered. -/
def sortMarks (cs : List Char) : List Char := cs.foldr insertMark []

theorem mem_insertMark {c d : Char} {cs : List Char} : d ∈ insertMark c cs ↔ d = c ∨ d ∈ cs := by
  induction cs with
  | nil => simp [insertMark]
  | cons head rest ih =>
    unfold insertMark
    split
    · simp
    · simp [ih, or_left_comm]

theorem mem_sortMarks {c : Char} {cs : List Char} : c ∈ sortMarks cs ↔ c ∈ cs := by
  unfold sortMarks
  induction cs with
  | nil => simp
  | cons head rest ih => simp [mem_insertMark, ih]

theorem insertMark_pairwise {c : Char} {cs : List Char} (h : cs.Pairwise (· ≤ ·)) :
    (insertMark c cs).Pairwise (· ≤ ·) := by
  induction cs with
  | nil => simp [insertMark]
  | cons head rest ih =>
    have first := (List.pairwise_cons.1 h).1
    unfold insertMark
    split
    · next le =>
      refine .cons (fun d mem => ?_) h
      rcases List.mem_cons.1 mem with rfl | mem
      · exact le
      · exact Char.le_trans le (first d mem)
    · next not_le =>
      refine .cons (fun d mem => ?_) (ih h.tail)
      rcases mem_insertMark.1 mem with rfl | mem
      · exact (Char.le_total d head).resolve_left not_le
      · exact first d mem

theorem sortMarks_pairwise (cs : List Char) : (sortMarks cs).Pairwise (· ≤ ·) := by
  unfold sortMarks
  induction cs with
  | nil => exact .nil
  | cons head rest ih => exact insertMark_pairwise ih

/-- The characters kept so far stand before those that are kept of the rest. -/
theorem eraseReps_loop (c : Char) (cs acc : List Char) :
    List.eraseRepsBy.loop (· == ·) c cs acc =
      acc.reverse ++ List.eraseRepsBy.loop (· == ·) c cs [] := by
  induction cs generalizing c acc with
  | nil => simp [List.eraseRepsBy.loop]
  | cons head rest ih =>
    simp only [List.eraseRepsBy.loop]
    split
    · exact ih c acc
    · rw [ih head (c :: acc), ih head [c]]
      simp

theorem eraseReps_cons_cons (c d : Char) (rest : List Char) :
    (c :: d :: rest).eraseReps =
      if c = d then (d :: rest).eraseReps else c :: (d :: rest).eraseReps := by
  simp only [List.eraseReps, List.eraseRepsBy, List.eraseRepsBy.loop]
  split
  · next same => rw [if_pos (beq_iff_eq.1 same), beq_iff_eq.1 same]
  · next differ =>
    rw [if_neg (beq_eq_false_iff_ne.1 differ), eraseReps_loop]
    rfl

theorem mem_eraseReps {c : Char} {cs : List Char} : c ∈ cs.eraseReps ↔ c ∈ cs := by
  induction cs with
  | nil => rfl
  | cons head rest ih =>
    cases rest with
    | nil => rfl
    | cons next rest =>
      rw [eraseReps_cons_cons]
      split
      · next same => simp [ih, same]
      · rw [List.mem_cons, ih, ← List.mem_cons]

/-- In ascending order equal characters are neighbours, so one of them is kept. -/
theorem eraseReps_pairwise {cs : List Char} (h : cs.Pairwise (· ≤ ·)) :
    cs.eraseReps.Pairwise (· < ·) := by
  induction cs with
  | nil => exact .nil
  | cons head rest ih =>
    cases rest with
    | nil => exact List.pairwise_singleton ..
    | cons next rest =>
      rw [eraseReps_cons_cons]
      split
      · exact ih h.tail
      · next ne =>
        refine .cons (fun d mem => Char.not_le.1 fun le => ne ?_) (ih h.tail)
        have first := (List.pairwise_cons.1 h).1
        have next_le : next ≤ d := by
          rcases List.mem_cons.1 (mem_eraseReps.1 mem) with rfl | behind
          · exact Char.le_refl _
          · exact (List.pairwise_cons.1 h.tail).1 d behind
        exact Char.le_antisymm (first next (.head _)) (Char.le_trans next_le le)

/-- The admissible characters among `cs`. -/
def ofList (cs : List Char) : Punctuation where
  marks := (sortMarks (cs.filter isAdmissible)).eraseReps
  ascending := eraseReps_pairwise (sortMarks_pairwise _)
  admissible c mem := by
    rw [mem_eraseReps, mem_sortMarks, List.mem_filter] at mem
    exact mem.2

/-- The marks that may stand in a name unless others are chosen. -/
def standardMarks : List Char := ['-', '.', '@', '$']

def standard : Punctuation := ofList standardMarks

theorem contains_ofList (cs : List Char) (c : Char) :
    (ofList cs).contains c = (isAdmissible c && cs.contains c) := by
  rw [Bool.eq_iff_iff, Bool.and_comm]
  simp only [contains, ofList, List.contains_iff_mem, mem_eraseReps, mem_sortMarks,
    List.mem_filter, Bool.and_eq_true]

theorem isAdmissible_of_contains {p : Punctuation} {c : Char} (h : p.contains c = true) :
    isAdmissible c = true :=
  p.admissible c (List.contains_iff_mem.1 h)

theorem contains_eq_false (p : Punctuation) {c : Char} (h : isAdmissible c = false) :
    p.contains c = false := by
  cases chosen : p.contains c with
  | false => rfl
  | true =>
    rw [isAdmissible_of_contains chosen] at h
    cases h

/-- Two ascending lists of the same characters are one list. -/
theorem eq_of_ascending {xs ys : List Char} (hx : xs.Pairwise (· < ·))
    (hy : ys.Pairwise (· < ·)) (same : ∀ c, c ∈ xs ↔ c ∈ ys) : xs = ys := by
  induction xs generalizing ys with
  | nil =>
    cases ys with
    | nil => rfl
    | cons y ys => exact absurd ((same y).2 (.head _)) (by simp)
  | cons x xs ih =>
    cases ys with
    | nil => exact absurd ((same x).1 (.head _)) (by simp)
    | cons y ys =>
      rw [List.pairwise_cons] at hx hy
      have head : x = y := by
        rcases List.mem_cons.1 ((same x).1 (.head _)) with eq | mem_x
        · exact eq
        · rcases List.mem_cons.1 ((same y).2 (.head _)) with eq | mem_y
          · exact eq.symm
          · exact absurd (hx.1 y mem_y) (Char.lt_asymm (hy.1 x mem_x))
      subst head
      rw [ih hx.2 hy.2 fun c => ?_]
      constructor
      · intro mem
        rcases List.mem_cons.1 ((same c).1 (.tail _ mem)) with rfl | found
        · exact absurd (hx.1 c mem) (Char.lt_irrefl c)
        · exact found
      · intro mem
        rcases List.mem_cons.1 ((same c).2 (.tail _ mem)) with rfl | found
        · exact absurd (hy.1 c mem) (Char.lt_irrefl c)
        · exact found

/-- Choices of the same characters are equal. -/
theorem eq_of_contains {p q : Punctuation} (h : ∀ c, p.contains c = q.contains c) : p = q := by
  have marks : p.marks = q.marks := eq_of_ascending p.ascending q.ascending fun c => by
    rw [← List.contains_iff_mem, ← List.contains_iff_mem]
    exact iff_of_eq (congrArg (· = true) (h c))
  cases p
  cases q
  cases marks
  rfl

/-- What can be chosen at all. -/
theorem isAdmissible_iff (c : Char) :
    isAdmissible c = true ↔ c ∈ ['#', '$', '-', '.', '@', '\\', '\x60'] := by
  have known : ascii.filter isAdmissible = ['#', '$', '-', '.', '@', '\\', '\x60'] := by
    decide +kernel
  rw [← known, List.mem_filter]
  refine ⟨fun h => ⟨?_, h⟩, And.right⟩
  simp only [isAdmissible, Bool.and_eq_true, List.contains_iff_mem] at h
  exact h.1.1

end Punctuation

end Criterion
