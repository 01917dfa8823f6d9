/-
# Criterion.Diagnostic.Report — a diagnostic below its text

A report has three lines: the message, the text, and carets below the places that the message names.
The text is kept on one line by writing each white-space character as a space, which also keeps
every character in its column.
-/
import Criterion.Diagnostic
import Criterion.Text.Blank

namespace Criterion.Diagnostic

set_option autoImplicit false

/-- The places of a diagnostic, in ascending order. -/
def marks (d : Diagnostic) : List Nat :=
  match d.secondIndex with
  | none => [d.index]
  | some second => [min d.index second, max d.index second]

/-- Carets in the columns of ascending marks, written from `column` on. -/
def carets (column : Nat) : List Nat → List Char
  | [] => []
  | mark :: rest =>
      if column ≤ mark then List.replicate (mark - column) ' ' ++ '^' :: carets (mark + 1) rest
      else carets column rest

/-- The text on one line. -/
def line (source : List Char) : List Char :=
  source.map fun c => if Text.isBlank c then ' ' else c

def report (d : Diagnostic) (source : String) : String :=
  d.message ++ "\n  " ++ String.ofList (line source.toList) ++ "\n  " ++
    String.ofList (carets 0 d.marks)

theorem marks_pairwise (d : Diagnostic) : d.marks.Pairwise (· ≤ ·) := by
  unfold marks
  split
  · simp
  · simp only [List.pairwise_cons, List.mem_singleton, forall_eq]
    exact ⟨by omega, by simp⟩

theorem mem_marks {d : Diagnostic} {i : Nat} :
    i ∈ d.marks ↔ i = d.index ∨ d.secondIndex = some i := by
  unfold marks
  split
  · next none_eq => simp [none_eq]
  · next second some_eq =>
    simp only [some_eq, List.mem_cons, List.not_mem_nil, or_false, Option.some.injEq]
    omega

theorem length_line (source : List Char) : (line source).length = source.length :=
  List.length_map _

end Criterion.Diagnostic
