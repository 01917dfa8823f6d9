/-
# Criterion.Formula — a text that has been understood

A formula is an expression text together with its tree. `Formula.compile` is the way from one to the
other: the text is scanned, and its tokens are arranged by precedence as the grammar admits them; the
first fault on that way is the answer if there is one.
-/
import Criterion.Arrangement

namespace Criterion

set_option autoImplicit false

structure Formula where
  source : String
  root : Expr
deriving DecidableEq, Repr

namespace Formula

/-- The tree of a text. -/
def parse (g : Grammar) (p : Punctuation) (source : String) : Except Diagnostic Expr :=
  (Admission.start g p source).parse

def compile (g : Grammar) (p : Punctuation) (source : String) : Except Diagnostic Formula :=
  (parse g p source).map fun root => ⟨source, root⟩

/-- The names that the formula reads, each once, in ascending order. -/
def inputs (f : Formula) : List String := f.root.inputs

instance : ToString Formula := ⟨source⟩

theorem source_of_compile {g : Grammar} {p : Punctuation} {source : String} {f : Formula}
    (h : compile g p source = .ok f) : f.source = source := by
  unfold compile at h
  cases eq : parse g p source with
  | error d => rw [eq] at h; cases h
  | ok root => rw [eq] at h; cases h; rfl

end Formula

end Criterion
