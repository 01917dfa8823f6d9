/-
# Criterion.Decimal — 32-bit integers in decimal

`write` gives the shortest decimal text of a 32-bit integer. `read` takes an optional sign and one
or more ASCII digits, of any length and with any leading zeros, and computes the value exactly
before it asks whether 32 bits can hold it, so `-2147483648` is read and `2147483648` is not.
`read_write` says that what is written reads back.
-/

namespace Criterion.Decimal

set_option autoImplicit false

/-- The exact value of one or more digits. -/
def unsigned (ds : List Char) : Option Nat :=
  if ds ≠ [] ∧ ds.all Char.isDigit then some (Nat.ofDigitChars 10 ds 0) else none

/-- The exact value of digits behind an optional sign. -/
def signed : List Char → Option Int
  | '-' :: ds => (unsigned ds).map fun n => -(n : Int)
  | '+' :: ds => (unsigned ds).map fun n => (n : Int)
  | ds => (unsigned ds).map fun n => (n : Int)

/-- The 32-bit integer of this value, if there is one. -/
def fit (v : Int) : Option Int32 :=
  if -2147483648 ≤ v ∧ v ≤ 2147483647 then some (Int32.ofInt v) else none

def read (cs : List Char) : Option Int32 := (signed cs).bind fit

def write (n : Int32) : List Char :=
  match n.toInt with
  | .ofNat m => Nat.toDigits 10 m
  | .negSucc m => '-' :: Nat.toDigits 10 (m + 1)

theorem unsigned_toDigits (n : Nat) : unsigned (Nat.toDigits 10 n) = some n := by
  rw [unsigned, if_pos, Nat.ofDigitChars_ten_toDigits]
  exact ⟨Nat.toDigits_ne_nil, List.all_eq_true.2 fun c mem =>
    Nat.isDigit_of_mem_toDigits (by decide) (by decide) mem⟩

/-- A text of digits carries no sign. -/
theorem signed_of_digits {ds : List Char} (h : ds.all Char.isDigit = true) :
    signed ds = (unsigned ds).map fun n => (n : Int) := by
  unfold signed
  split
  · simp [Char.isDigit] at h
  · simp [Char.isDigit] at h
  · rfl

theorem fit_toInt (n : Int32) : fit n.toInt = some n := by
  have low := n.le_toInt
  have high := n.toInt_lt
  rw [fit, if_pos ⟨by omega, by omega⟩, Int32.ofInt_toInt]

theorem toInt_of_fit {v : Int} {n : Int32} (h : fit v = some n) : n.toInt = v := by
  unfold fit at h
  split at h
  · next bounds =>
    cases h
    exact Int32.toInt_ofInt_of_le (by omega) (by omega)
  · cases h

theorem signed_write (n : Int32) : signed (write n) = some n.toInt := by
  unfold write
  split
  · next m eq =>
    have digits : (Nat.toDigits 10 m).all Char.isDigit = true := List.all_eq_true.2 fun c mem =>
      Nat.isDigit_of_mem_toDigits (by decide) (by decide) mem
    rw [signed_of_digits digits, unsigned_toDigits, eq]
    rfl
  · next m eq =>
    rw [signed, unsigned_toDigits, eq]
    rfl

/-- What is written reads back. -/
theorem read_write (n : Int32) : read (write n) = some n := by
  rw [read, signed_write, Option.bind_some, fit_toInt]

end Criterion.Decimal
