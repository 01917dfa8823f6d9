/-
# Criterion.Text.Ranges — sets of code points as tables of closed ranges

A character class of the Unicode standard is a table of closed ranges of code points, in ascending
order with a gap between any two. `within` looks a code point up and stops at the first range that
lies above it; `within_iff` says that on an ascending table nothing is lost by stopping there.
-/

namespace Criterion.Text

set_option autoImplicit false

/-- Each range is not empty and ends below the next one. -/
def ascending : List (Nat × Nat) → Bool
  | [] => true
  | [(low, high)] => low ≤ high
  | (low, high) :: (low', high') :: rest =>
      low ≤ high && high < low' && ascending ((low', high') :: rest)

/-- Whether `n` lies in a range of an ascending table. -/
def within : List (Nat × Nat) → Nat → Bool
  | [], _ => false
  | (low, high) :: rest, n => low ≤ n && (n ≤ high || within rest n)

theorem exists_of_within {table : List (Nat × Nat)} {n : Nat} (h : within table n = true) :
    ∃ r ∈ table, r.1 ≤ n ∧ n ≤ r.2 := by
  induction table with
  | nil => simp [within] at h
  | cons r rest ih =>
    simp only [within, Bool.and_eq_true, Bool.or_eq_true, decide_eq_true_eq] at h
    rcases h with ⟨low, high | later⟩
    · exact ⟨r, .head _, low, high⟩
    · obtain ⟨q, mem, q_low, q_high⟩ := ih later
      exact ⟨q, .tail _ mem, q_low, q_high⟩

/-- The start of an ascending table bounds every range in it from below. -/
theorem ascending_head_le {r : Nat × Nat} {rest : List (Nat × Nat)}
    (h : ascending (r :: rest) = true) : ∀ q ∈ rest, r.1 ≤ q.1 := by
  induction rest generalizing r with
  | nil => simp
  | cons q rest ih =>
    simp only [ascending, Bool.and_eq_true, decide_eq_true_eq] at h
    intro p mem
    rcases List.mem_cons.1 mem with rfl | mem
    · omega
    · have := ih h.2 p mem
      omega

theorem ascending_tail {r : Nat × Nat} {rest : List (Nat × Nat)}
    (h : ascending (r :: rest) = true) : ascending rest = true := by
  cases rest with
  | nil => rfl
  | cons q rest => simp only [ascending, Bool.and_eq_true] at h; exact h.2

/-- On an ascending table the early stop loses nothing. -/
theorem within_iff {table : List (Nat × Nat)} (h : ascending table = true) (n : Nat) :
    within table n = true ↔ ∃ r ∈ table, r.1 ≤ n ∧ n ≤ r.2 := by
  refine ⟨exists_of_within, ?_⟩
  rintro ⟨r, mem, low, high⟩
  induction table with
  | nil => simp at mem
  | cons q rest ih =>
    simp only [within, Bool.and_eq_true, Bool.or_eq_true, decide_eq_true_eq]
    rcases List.mem_cons.1 mem with rfl | mem
    · exact ⟨low, .inl high⟩
    · exact ⟨Nat.le_trans (ascending_head_le h r mem) low, .inr (ih (ascending_tail h) mem)⟩

theorem within_head {low high n : Nat} {rest : List (Nat × Nat)} (h : low ≤ n ∧ n ≤ high) :
    within ((low, high) :: rest) n = true := by
  simp [within, h]

theorem within_later {low high n : Nat} {rest : List (Nat × Nat)} (h : low ≤ n)
    (later : within rest n = true) : within ((low, high) :: rest) n = true := by
  simp [within, h, later]

end Criterion.Text
