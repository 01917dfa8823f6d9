/-
# Criterion.Proofs.Numerals — numbers are read exactly

A numeral is read for what it is worth. `Decimal.worth` says what that is, digit by digit and without
a bound, and a numeral of any length is read as the integer of 32 bits that is worth as much, if
there is one (`Decimal.read_eq_some_iff`). So zeros in front change nothing, and the least integer is
read although its opposite is not.

There are two who read numerals, and they agree: in a text one is a token, unless its value is out of
range or a name begins directly behind it, and in a binding it is a value
(`Scan.ofText_numeral`).
-/
import Criterion.Proofs.Spelling
import Criterion.Tier
import Mathlib.Algebra.Ring.Int.Defs
import Mathlib.Algebra.Ring.Nat

namespace Criterion

set_option autoImplicit false

/-! ## Worth -/

namespace Decimal

/-- Each digit is worth ten times as much as it would be one place further back. -/
def digitsWorth : List Char → Nat
  | [] => 0
  | d :: ds => (d.toNat - '0'.toNat) * 10 ^ ds.length + digitsWorth ds

/-- The exact value of a numeral. -/
def worth : List Char → Int
  | '-' :: ds => -(digitsWorth ds : Int)
  | ds => digitsWorth ds

/-- Digits read in their order, as they are added up from the left. -/
theorem ofDigitChars_eq_digitsWorth (ds : List Char) (n : Nat) :
    Nat.ofDigitChars 10 ds n = n * 10 ^ ds.length + digitsWorth ds := by
  induction ds generalizing n with
  | nil => simp [digitsWorth, Nat.ofDigitChars_nil]
  | cons d ds ih =>
      rw [Nat.ofDigitChars_cons, ih, digitsWorth, List.length_cons, Nat.pow_succ',
        ← Nat.mul_assoc, Nat.mul_comm n 10, Nat.add_mul, Nat.add_assoc]

theorem unsigned_of_digits {ds : List Char} (some_digit : ds ≠ [])
    (digits : ∀ d ∈ ds, d.isDigit = true) : unsigned ds = some (digitsWorth ds) := by
  rw [unsigned, if_pos ⟨some_digit, List.all_eq_true.2 digits⟩, ofDigitChars_eq_digitsWorth]
  simp

/-- The text of digits has no sign. -/
theorem worth_of_digits {ds : List Char} (digits : ∀ d ∈ ds, d.isDigit = true) :
    worth ds = digitsWorth ds := by
  unfold worth
  split
  · have hyphen := digits '-' (.head _)
    cases hyphen
  · rfl

theorem signed_of_isNumeral {cs : List Char} (numeral : IsNumeral cs) :
    signed cs = some (worth cs) := by
  obtain ⟨ds, some_digit, digits, rfl | rfl⟩ := numeral
  · rw [signed_of_digits (List.all_eq_true.2 digits), unsigned_of_digits some_digit digits,
      worth_of_digits digits]
    rfl
  · rw [signed, unsigned_of_digits some_digit digits]
    rfl

theorem fit_eq_some_iff {v : Int} {n : Int32} : fit v = some n ↔ n.toInt = v := by
  constructor
  · exact toInt_of_fit
  · rintro rfl
    exact fit_toInt n

theorem fit_eq_none_iff {v : Int} : fit v = none ↔ ¬(-2 ^ 31 ≤ v ∧ v ≤ 2 ^ 31 - 1) := by
  unfold fit
  split <;> simp <;> omega

section

variable {cs : List Char} (numeral : IsNumeral cs)

include numeral

theorem read_of_isNumeral : read cs = fit (worth cs) := by
  rw [read, signed_of_isNumeral numeral, Option.bind_some]

/-- A numeral is read as the integer that is worth as much. -/
theorem read_eq_some_iff {n : Int32} : read cs = some n ↔ n.toInt = worth cs := by
  rw [read_of_isNumeral numeral, fit_eq_some_iff]

theorem read_eq_none_iff : read cs = none ↔ ¬(-2 ^ 31 ≤ worth cs ∧ worth cs ≤ 2 ^ 31 - 1) := by
  rw [read_of_isNumeral numeral, fit_eq_none_iff]

/-- No numeral is a truth value. -/
theorem readInteger_of_isNumeral : Tier.readInteger cs = read cs := by
  obtain ⟨c, tail, rfl, _, number, _⟩ := Lexeme.exists_run_of_isNumeral numeral
  have start (letter : Char) (outside : Lexeme.startsNumber letter tail = false) : c ≠ letter := by
    rintro rfl
    have inside := number []
    rw [List.append_nil, outside] at inside
    cases inside
  have not_t : c ≠ 't' := start 't' (by simp [Lexeme.startsNumber, Char.isDigit])
  have not_f : c ≠ 'f' := start 'f' (by simp [Lexeme.startsNumber, Char.isDigit])
  have none : Tier.readBool (c :: tail) = none := by
    simp [Tier.readBool, not_t, not_f]
  rw [Tier.readInteger, none]

end

end Decimal

/-! ## Two readers -/

namespace Scan

section

variable {p : Punctuation} {numeral behind : String} (digits : Decimal.IsNumeral numeral.toList)
  (ends : ∀ d, behind.toList.head? = some d → d.isDigit = false)

include digits ends

/-- A numeral runs into a name, or is one token before whatever follows, or is out of range. -/
theorem ofText_numeral_cases :
    (behind.toList.head?.any Lexeme.startsName = true →
      ofText p (numeral ++ behind) = ⟨[], some (.mergedNumber numeral 0)⟩) ∧
    (behind.toList.head?.any Lexeme.startsName = false →
      (∀ n, Decimal.read numeral.toList = some n → ∃ token,
        token.word = .number n ∧ token.text = numeral ∧
          ofText p (numeral ++ behind) =
            (scanFrom p (.past .zero numeral.toList) false 0 behind.toList).cons token) ∧
      (Decimal.read numeral.toList = none →
        ofText p (numeral ++ behind) = ⟨[], some (.hugeNumber numeral 0)⟩)) := by
  obtain ⟨c, tail, written, solid, number, run⟩ := Lexeme.exists_run_of_isNumeral digits
  have text : String.ofList (c :: tail) = numeral := by rw [← written, String.ofList_toList]
  have read := Lexeme.read_of_run p Offset.zero.chars (number behind.toList) run ends
  rw [text] at read
  rw [ofText, String.toList_append, written, List.cons_append]
  refine ⟨fun merged => ?_, fun apart => ⟨fun n value => ?_, fun huge => ?_⟩⟩
  · rw [if_pos merged] at read
    exact scanFrom_fault p .zero true solid read
  · rw [apart, if_neg Bool.false_ne_true, value] at read
    exact ⟨place .zero true c ⟨.number n, tail⟩ behind.toList, rfl, text,
      scanFrom_lexeme_append (l := ⟨.number n, tail⟩) true solid read⟩
  · rw [apart, if_neg Bool.false_ne_true, huge] at read
    exact scanFrom_fault p .zero true solid read

end

/-- A numeral is no longer than its digits, so a text that is one is one token or out of range. -/
theorem ofText_numeral_alone (p : Punctuation) {numeral : String}
    (digits : Decimal.IsNumeral numeral.toList) :
    (∀ n, Tier.readInteger numeral.toList = some n ↔
      ∃ token, ofText p numeral = ⟨[token], none⟩ ∧ token.word = .number n) ∧
    (Tier.readInteger numeral.toList = none ↔
      ofText p numeral = ⟨[], some (.hugeNumber numeral 0)⟩) := by
  have ends : ∀ d, "".toList.head? = some d → d.isDigit = false := by simp
  obtain ⟨_, whole⟩ := ofText_numeral_cases (p := p) digits ends
  obtain ⟨token, huge⟩ := whole (by simp)
  simp only [String.append_empty, String.toList_empty, scanFrom_nil] at token huge
  rw [Decimal.readInteger_of_isNumeral digits]
  cases value : Decimal.read numeral.toList with
  | none =>
      rw [huge value]
      simp
  | some n =>
      obtain ⟨found, word, _, scanned⟩ := token n value
      have one : ofText p numeral = ⟨[found], none⟩ := scanned
      rw [one]
      simp [word, eq_comm]

/-- What is behind a numeral matters only if it is a letter or `_`: then the numeral is merged with
it. Otherwise the numeral is a token that has its exact value, if 32 bits can hold that, and is out
of range if not. An integer is written as a numeral that is one token of that value. Read as an
integer, a numeral is accepted and refused as it is in a text, for the same value. -/
theorem ofText_numeral (p : Punctuation) :
    (∀ numeral behind : String, Decimal.IsNumeral numeral.toList →
      (∀ d, behind.toList.head? = some d → d.isDigit = false) →
      ((∃ c, behind.toList.head? = some c ∧ (Text.isAlphabetic c = true ∨ c = '_')) →
        ofText p (numeral ++ behind) = ⟨[], some (.mergedNumber numeral 0)⟩) ∧
      ((∀ c, behind.toList.head? = some c → Text.isAlphabetic c = false ∧ c ≠ '_') →
        (-2 ^ 31 ≤ Decimal.worth numeral.toList ∧ Decimal.worth numeral.toList ≤ 2 ^ 31 - 1 →
          ∃ token rest, (ofText p (numeral ++ behind)).tokens = token :: rest ∧
            token.text = numeral ∧
            ∃ n : Int32, token.word = .number n ∧ n.toInt = Decimal.worth numeral.toList) ∧
        (¬(-2 ^ 31 ≤ Decimal.worth numeral.toList ∧ Decimal.worth numeral.toList ≤ 2 ^ 31 - 1) →
          ofText p (numeral ++ behind) = ⟨[], some (.hugeNumber numeral 0)⟩))) ∧
    (∀ n : Int32, Tier.readInteger (Decimal.write n) = some n ∧
      ∃ token, ofText p (String.ofList (Decimal.write n)) = ⟨[token], none⟩ ∧
        token.word = .number n) ∧
    ∀ numeral : String, Decimal.IsNumeral numeral.toList →
      (∀ n, Tier.readInteger numeral.toList = some n ↔
        ∃ token, ofText p numeral = ⟨[token], none⟩ ∧ token.word = .number n) ∧
      (Tier.readInteger numeral.toList = none ↔
        ofText p numeral = ⟨[], some (.hugeNumber numeral 0)⟩) := by
  refine ⟨fun numeral behind digits ends => ?_, fun n => ?_, fun numeral digits => ?_⟩
  · obtain ⟨merged, whole⟩ := ofText_numeral_cases (p := p) digits ends
    refine ⟨fun letter => ?_, fun apart => ?_⟩
    · obtain ⟨c, head, name⟩ := letter
      apply merged
      simpa [head, Lexeme.startsName] using name
    · have stop : behind.toList.head?.any Lexeme.startsName = false :=
        Lexeme.any_head?_eq_false.2 fun c head => by simp [Lexeme.startsName, apart c head]
      obtain ⟨found, refused⟩ := whole stop
      refine ⟨fun fits => ?_, fun huge => refused ((Decimal.read_eq_none_iff digits).2 huge)⟩
      cases value : Decimal.read numeral.toList with
      | none => exact absurd fits ((Decimal.read_eq_none_iff digits).1 value)
      | some n =>
          obtain ⟨token, word, text, scanned⟩ := found n value
          rw [scanned]
          exact ⟨token, _, rfl, text, n, word, (Decimal.read_eq_some_iff digits).1 value⟩
  · have reads : Tier.readInteger (Decimal.write n) = some n := Tier.read_write .condition n
    have numeral : Decimal.IsNumeral (String.ofList (Decimal.write n)).toList := by
      rw [String.toList_ofList]
      exact Decimal.isNumeral_write n
    refine ⟨reads, ((ofText_numeral_alone p numeral).1 n).1 ?_⟩
    rw [String.toList_ofList, reads]
  · exact ofText_numeral_alone p digits

/-- The least integer is read with a zero in front, before a digit of another script, and its
opposite is out of range. -/
theorem ofText_numeral_least :
    (∃ token rest, (ofText .standard ("-02147483648" ++ "٣")).tokens = token :: rest ∧
      token.text = "-02147483648" ∧ ∃ n : Int32, token.word = .number n ∧ n.toInt = -2147483648) ∧
    ofText .standard ("2147483648" ++ " - 1") = ⟨[], some (.hugeNumber "2147483648" 0)⟩ ∧
    ofText .standard ("2147483648" ++ "é") = ⟨[], some (.mergedNumber "2147483648" 0)⟩ ∧
    Tier.readInteger "2147483648".toList = none := by
  have numeral : Decimal.IsNumeral "2147483648".toList :=
    ⟨_, by decide, List.all_eq_true.1 (by decide), .inl rfl⟩
  have negative : Decimal.IsNumeral "-02147483648".toList :=
    ⟨"02147483648".toList, by decide, List.all_eq_true.1 (by decide), .inr (by decide)⟩
  have worth : Decimal.worth "2147483648".toList = 2147483648 := by decide
  have least : Decimal.worth "-02147483648".toList = -2147483648 := by decide
  obtain ⟨scan, _, alone⟩ := ofText_numeral .standard
  obtain ⟨_, whole⟩ := scan _ "٣" negative (by simp [Char.isDigit])
  obtain ⟨found, _⟩ := whole (by simp; decide)
  obtain ⟨_, spaced⟩ := scan _ " - 1" numeral (by simp [Char.isDigit])
  obtain ⟨_, huge⟩ := spaced (by simp; decide)
  obtain ⟨merged, _⟩ := scan _ "é" numeral (by simp [Char.isDigit])
  obtain ⟨_, refused⟩ := alone "2147483648" numeral
  rw [least] at found
  rw [worth] at huge
  refine ⟨found (by decide), huge (by decide), merged ⟨'é', by simp, .inl (by decide)⟩,
    refused.2 ?_⟩
  decide +kernel

end Scan

end Criterion
