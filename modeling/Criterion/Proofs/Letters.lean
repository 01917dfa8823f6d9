/-
# Criterion.Proofs.Letters — white space and the letters of a token

No character is both white space and part of a token: the tables of letters and numbers leave all 25
white-space characters out (`isAlphabetic_of_isBlank`, `isNumeric_of_isBlank`), and nothing that is
written in an operator or chosen as punctuation is one of them.

So a lexeme holds no white space (`Lexeme.solid`), and it cannot tell white space behind it from the
end of the text (`Lexeme.read_append_blank`): whatever could make it longer, or be at fault with it,
would have to stand directly behind it.
-/
import Criterion.Scan

namespace Criterion

set_option autoImplicit false

/-! ## Tables -/

namespace Text

/-- The code points of a table. -/
def codes (table : List (Nat × Nat)) : List Nat :=
  table.flatMap fun r => List.range' r.1 (r.2 + 1 - r.1)

theorem mem_codes_of_within {table : List (Nat × Nat)} {n : Nat} (h : within table n = true) :
    n ∈ codes table := by
  obtain ⟨r, mem, low, high⟩ := exists_of_within h
  refine List.mem_flatMap.2 ⟨r, mem, List.mem_range'_1.2 ⟨low, ?_⟩⟩
  omega

/-- What fails at each of the white-space characters fails at every one. -/
theorem of_isBlank {c : Char} (blank : isBlank c = true) {p : Nat → Bool}
    (all : (codes blankRanges).all p = true) : p c.toNat = true :=
  List.all_eq_true.1 all _ (mem_codes_of_within blank)

theorem isAlphabetic_of_isBlank {c : Char} (blank : isBlank c = true) : isAlphabetic c = false := by
  have outside := of_isBlank (p := fun n => !within alphabeticRanges n) blank (by decide +kernel)
  simpa [isAlphabetic] using outside

theorem isNumeric_of_isBlank {c : Char} (blank : isBlank c = true) : isNumeric c = false := by
  have outside := of_isBlank (p := fun n => !within numericRanges n) blank (by decide +kernel)
  simpa [isNumeric] using outside

theorem isDigit_of_isBlank {c : Char} (blank : isBlank c = true) : c.isDigit = false := by
  cases digit : c.isDigit with
  | false => rfl
  | true =>
      have numeric := isNumeric_of_isDigit digit
      rw [isNumeric_of_isBlank blank] at numeric
      cases numeric

/-- No letter comes before `A`; digits, parentheses and the marks of operators up to `>` do. -/
theorem le_of_isAlphabetic {c : Char} (letter : isAlphabetic c = true) : 0x41 ≤ c.toNat := by
  obtain ⟨r, mem, low, _⟩ := exists_of_within letter
  rcases List.mem_cons.1 mem with rfl | mem
  · exact low
  · exact Nat.le_trans (ascending_head_le alphabeticRanges_ascending r mem) low

theorem ne_of_isBlank {b c : Char} (blank : isBlank b = true) (solid : isBlank c = false) :
    b ≠ c := by
  rintro rfl
  rw [blank] at solid
  cases solid

theorem solid_of_all {cs : List Char} (h : (cs.all fun c => !isBlank c) = true) :
    ∀ c ∈ cs, isBlank c = false := by
  intro c mem
  have outside := List.all_eq_true.1 h c mem
  simpa using outside

/-- A run of characters of a class without white space holds none. -/
theorem solid_of_mem_takeWhile {q : Char → Bool} (apart : ∀ c, isBlank c = true → q c = false)
    {cs : List Char} {d : Char} (mem : d ∈ cs.takeWhile q) : isBlank d = false := by
  have holds : q d = true := List.all_eq_true.1 List.all_takeWhile d mem
  cases blank : isBlank d with
  | false => rfl
  | true =>
      rw [apart d blank] at holds
      cases holds

end Text

/-! ## Characters of a lexeme -/

theorem Punctuation.contains_of_isBlank (p : Punctuation) {c : Char}
    (blank : Text.isBlank c = true) : p.contains c = false := by
  have solid : ∀ mark ∈ ['#', '$', '-', '.', '@', '\\', '\x60'], Text.isBlank mark = false :=
    Text.solid_of_all (by decide)
  refine p.contains_eq_false (Bool.eq_false_iff.2 fun mark => ?_)
  rw [solid c ((isAdmissible_iff c).1 mark)] at blank
  cases blank

theorem Punctuation.contains_of_paren (p : Punctuation) {c : Char} (paren : c ∈ ['(', ')']) :
    p.contains c = false := by
  have never : ['(', ')'].all (fun c => !isAdmissible c) = true := by decide
  exact p.contains_eq_false (by simpa using List.all_eq_true.1 never c paren)

theorem Sign.solid (sign : Sign) : ∀ c ∈ sign.text.toList, Text.isBlank c = false := by
  apply Text.solid_of_all
  cases sign <;> decide

namespace Lexeme

theorem startsName_of_isBlank {c : Char} (blank : Text.isBlank c = true) :
    startsName c = false := by
  have mark : c ≠ '_' := Text.ne_of_isBlank blank (by decide)
  simp [startsName, Text.isAlphabetic_of_isBlank blank, mark]

theorem le_of_startsName {c : Char} (name : startsName c = true) : 0x41 ≤ c.toNat := by
  rcases Bool.or_eq_true_iff.1 name with letter | line
  · exact Text.le_of_isAlphabetic letter
  · rw [beq_iff_eq.1 line]
    decide

theorem isDigit_of_startsName {c : Char} (name : startsName c = true) : c.isDigit = false := by
  have low := le_of_startsName name
  cases digit : c.isDigit with
  | false => rfl
  | true =>
      have high := (Bool.and_eq_true_iff.1 digit).2
      have nine := UInt32.le_iff_toNat_le.1 (of_decide_eq_true high)
      exact absurd (Nat.le_trans low nine) (by decide)

/-- What starts like a name is read as one. -/
theorem read_of_startsName (p : Punctuation) (index : Nat) {c : Char} (rest : List Char)
    (name : startsName c = true) : read p index c rest = readName p index c rest := by
  have hyphen : c ≠ '-' := by
    rintro rfl
    cases name
  have number : startsNumber c rest = false := by
    simp [startsNumber, isDigit_of_startsName name, hyphen]
  rw [read, number, if_neg Bool.false_ne_true, if_pos name]

theorem continuesName_of_isBlank (p : Punctuation) {c : Char} (blank : Text.isBlank c = true) :
    continuesName p c = false := by
  have mark : c ≠ '_' := Text.ne_of_isBlank blank (by decide)
  simp [continuesName, Text.isAlphabetic_of_isBlank blank, Text.isNumeric_of_isBlank blank,
    p.contains_of_isBlank blank, mark]

section

variable {p : Punctuation} {index : Nat} {c : Char} {rest : List Char} {l : Lexeme}

/-- There is no white space in a lexeme behind its first character. -/
theorem solid (h : read p index c rest = .ok l) : ∀ d ∈ l.tail, Text.isBlank d = false := by
  intro d mem
  unfold read at h
  split at h
  · rw [tail_of_readNumber h] at mem
    exact Text.solid_of_mem_takeWhile (fun _ => Text.isDigit_of_isBlank) mem
  · split at h
    · rw [tail_of_readName h] at mem
      exact Text.solid_of_mem_takeWhile (fun _ => continuesName_of_isBlank p) mem
    · split at h
      · cases h
        cases mem
      · split at h
        · cases h
          cases mem
        · split at h
          · next sign _ =>
            cases h
            exact sign.solid d (List.mem_of_mem_tail mem)
          · cases h

end

/-! ## White space behind -/

section

variable {b : Char} (rest behind : List Char)

theorem takeWhile_append_stop {q : Char → Bool} (stop : q b = false) :
    (rest ++ b :: behind).takeWhile q = rest.takeWhile q := by
  rw [List.takeWhile_append, List.takeWhile_cons_of_neg (by simp [stop])]
  split
  · next all => rw [List.append_nil, (List.takeWhile_prefix q).eq_of_length all]
  · rfl

theorem head?_dropWhile_append_stop {q r : Char → Bool} (stop : q b = false)
    (apart : r b = false) :
    ((rest ++ b :: behind).dropWhile q).head?.any r = (rest.dropWhile q).head?.any r := by
  rw [List.dropWhile_append, List.dropWhile_cons_of_neg (by simp [stop])]
  split
  · next none => simp [List.isEmpty_iff.1 none, apart]
  · next some =>
    cases dropped : rest.dropWhile q with
    | nil => simp [dropped] at some
    | cons d ds => rfl

variable (blank : Text.isBlank b = true)

include blank

theorem startsNumber_append_blank (c : Char) :
    startsNumber c (rest ++ b :: behind) = startsNumber c rest := by
  cases rest with
  | nil => simp [startsNumber, Text.isDigit_of_isBlank blank]
  | cons d rest => rfl

theorem readNumber_append_blank (index : Nat) (c : Char) :
    readNumber index c (rest ++ b :: behind) = readNumber index c rest := by
  have digit := Text.isDigit_of_isBlank blank
  rw [readNumber, readNumber, takeWhile_append_stop rest behind digit,
    head?_dropWhile_append_stop rest behind digit (startsName_of_isBlank blank)]

theorem readName_append_blank (p : Punctuation) (index : Nat) (c : Char) :
    readName p index c (rest ++ b :: behind) = readName p index c rest := by
  rw [readName_eq, readName_eq,
    takeWhile_append_stop rest behind (continuesName_of_isBlank p blank)]

/-- The second character of an operator is not white space. -/
theorem leading?_append_blank (c : Char) :
    Sign.leading? c (rest ++ b :: behind) = Sign.leading? c rest := by
  cases rest with
  | nil =>
      have equal : b ≠ '=' := Text.ne_of_isBlank blank (by decide)
      have amp : b ≠ '&' := Text.ne_of_isBlank blank (by decide)
      have bar : b ≠ '|' := Text.ne_of_isBlank blank (by decide)
      unfold Sign.leading?
      split <;> simp_all
  | cons d rest => exact Sign.leading?_cons c d _ _

/-- A lexeme does not see what white space separates from it. -/
theorem read_append_blank (p : Punctuation) (index : Nat) (c : Char) :
    read p index c (rest ++ b :: behind) = read p index c rest := by
  rw [read, read, startsNumber_append_blank rest behind blank,
    readNumber_append_blank rest behind blank, readName_append_blank rest behind blank,
    leading?_append_blank rest behind blank]

end

end Lexeme

end Criterion
