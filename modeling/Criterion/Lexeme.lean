/-
# Criterion.Lexeme — the one token at the start of a text

`Lexeme.read` looks at a text whose first character is no white space and takes the one token that
starts there, or tells why there is none. A number is a run of digits, with the `-` directly before
it if there is one; a name is the longest run of the characters that a name may hold, though it is
read in two stretches (`readName_eq`); of two operators that fit, the longer is taken.
`tail_isPrefixOf` says that what is taken is where the text starts.
-/
import Criterion.Decimal
import Criterion.Diagnostic
import Criterion.Punctuation
import Criterion.Text.Alphabetic
import Criterion.Text.Numeric
import Criterion.Token

namespace Criterion

set_option autoImplicit false

/-- A token without its place: what it means, and its characters from the second on. -/
structure Lexeme where
  word : Word
  tail : List Char
deriving DecidableEq, Repr

namespace Lexeme

/-! ## Character classes -/

def startsName (c : Char) : Bool := Text.isAlphabetic c || c == '_'

/-- The characters of a name that does without punctuation and the digits of other scripts. -/
def joinsName (c : Char) : Bool := Text.isAlphabetic c || c.isDigit || c == '_'

def continuesName (p : Punctuation) (c : Char) : Bool :=
  Text.isAlphabetic c || Text.isNumeric c || c == '_' || p.contains c

def startsNumber (c : Char) (rest : List Char) : Bool :=
  c.isDigit || (c == '-' && rest.head?.any Char.isDigit)

/-! ## Reading -/

/-- The number whose first character is `c`. It must not run into a name. -/
def readNumber (index : Nat) (c : Char) (rest : List Char) : Except LexicalFault Lexeme :=
  let tail := rest.takeWhile Char.isDigit
  if (rest.dropWhile Char.isDigit).head?.any startsName then
    .error (.mergedNumber (String.ofList (c :: tail)) index)
  else
    match Decimal.read (c :: tail) with
    | some value => .ok ⟨.number value, tail⟩
    | none => .error (.hugeNumber (String.ofList (c :: tail)) index)

/-- The meaning of a whole name: two names are truth values. -/
def wordOfName (name : List Char) : Word :=
  if name = "true".toList then .bool true
  else if name = "false".toList then .bool false
  else .name (String.ofList name)

/-- The name whose first character is `c`. Where a plain name ends, punctuation may go on with it and
all that a name may hold behind that; the last character taken so must not be punctuation. -/
def readName (p : Punctuation) (index : Nat) (c : Char) (rest : List Char) :
    Except LexicalFault Lexeme :=
  let more := (rest.dropWhile joinsName).takeWhile (continuesName p)
  let tail := rest.takeWhile joinsName ++ more
  if more.getLast?.any p.contains then
    .error (.openName (String.ofList (c :: tail)) (index + tail.length))
  else
    .ok ⟨wordOfName (c :: tail), tail⟩

/-- The token that starts with `c`, the character at `index`. -/
def read (p : Punctuation) (index : Nat) (c : Char) (rest : List Char) :
    Except LexicalFault Lexeme :=
  if startsNumber c rest then readNumber index c rest
  else if startsName c then readName p index c rest
  else if c = '(' then .ok ⟨.openParen, []⟩
  else if c = ')' then .ok ⟨.closeParen, []⟩
  else
    match Sign.leading? c rest with
    | some sign => .ok ⟨.sign sign, sign.text.toList.tail⟩
    | none => .error (LexicalFault.ofChar c index)

/-! ## Two stretches of a name -/

/-- What can be chosen as punctuation has no other part in a name. -/
theorem not_letter_of_isAdmissible {c : Char} (mark : Punctuation.isAdmissible c = true) :
    Text.isAlphabetic c = false ∧ Text.isNumeric c = false ∧ c ≠ '_' := by
  have all : ['#', '$', '-', '.', '@', '\\', '\x60'].all (fun c =>
      !Text.isAlphabetic c && !Text.isNumeric c && c != '_') = true := by decide +kernel
  have outside := List.all_eq_true.1 all c ((Punctuation.isAdmissible_iff c).1 mark)
  simpa [and_assoc] using outside

theorem continuesName_of_joinsName (p : Punctuation) {c : Char} (joins : joinsName c = true) :
    continuesName p c = true := by
  simp only [joinsName, continuesName, Bool.or_eq_true] at joins ⊢
  rcases joins with (letter | digit) | line
  · exact .inl (.inl (.inl letter))
  · exact .inl (.inl (.inr (Text.isNumeric_of_isDigit digit)))
  · exact .inl (.inr line)

theorem not_contains_of_joinsName {p : Punctuation} {c : Char} (joins : joinsName c = true) :
    p.contains c = false := by
  refine p.contains_eq_false (Bool.eq_false_iff.2 fun mark => ?_)
  obtain ⟨letter, number, line⟩ := not_letter_of_isAdmissible mark
  simp only [joinsName, letter, Bool.false_or, Bool.or_eq_true, beq_iff_eq] at joins
  rcases joins with digit | same
  · rw [Text.isNumeric_of_isDigit digit] at number
    cases number
  · exact absurd same line

/-- A run of some characters, and one of more characters behind it, are one run of these. -/
theorem takeWhile_append_takeWhile {α : Type} {q r : α → Bool}
    (wider : ∀ x, q x = true → r x = true) (xs : List α) :
    xs.takeWhile q ++ (xs.dropWhile q).takeWhile r = xs.takeWhile r := by
  have inside : ∀ x ∈ xs.takeWhile q, r x = true :=
    fun x mem => wider x (List.all_eq_true.1 List.all_takeWhile x mem)
  rw [← List.takeWhile_append_of_pos inside, List.takeWhile_append_dropWhile]

/-- The two stretches are one run. If it ends in punctuation, that belongs to the second, as there is
none in the first. -/
theorem readName_eq (p : Punctuation) (index : Nat) (c : Char) (rest : List Char) :
    readName p index c rest =
      let tail := rest.takeWhile (continuesName p)
      if tail.getLast?.any p.contains then
        .error (.openName (String.ofList (c :: tail)) (index + tail.length))
      else
        .ok ⟨wordOfName (c :: tail), tail⟩ := by
  have run : rest.takeWhile joinsName ++ (rest.dropWhile joinsName).takeWhile (continuesName p) =
      rest.takeWhile (continuesName p) :=
    takeWhile_append_takeWhile (fun _ => continuesName_of_joinsName p) rest
  have last : (rest.takeWhile (continuesName p)).getLast?.any p.contains =
      ((rest.dropWhile joinsName).takeWhile (continuesName p)).getLast?.any p.contains := by
    rw [← run, List.getLast?_append]
    cases ((rest.dropWhile joinsName).takeWhile (continuesName p)).getLast? with
    | some d => rfl
    | none =>
      rw [Option.none_or, Option.any_none, Option.any_eq_false]
      intro d last
      have joins := List.all_eq_true.1 List.all_takeWhile d (List.mem_of_getLast? last)
      exact not_contains_of_joinsName joins
  simp only [readName, run, last]

/-! ## What is taken -/

theorem tail_of_readNumber {index : Nat} {c : Char} {rest : List Char} {l : Lexeme}
    (h : readNumber index c rest = .ok l) : l.tail = rest.takeWhile Char.isDigit := by
  simp only [readNumber] at h
  split at h
  · cases h
  · split at h <;> cases h
    rfl

theorem tail_of_readName {p : Punctuation} {index : Nat} {c : Char} {rest : List Char} {l : Lexeme}
    (h : readName p index c rest = .ok l) : l.tail = rest.takeWhile (continuesName p) := by
  simp only [readName_eq] at h
  split at h <;> cases h
  rfl

/-- A lexeme is the start of the text it is read from. -/
theorem tail_isPrefixOf {p : Punctuation} {index : Nat} {c : Char} {rest : List Char} {l : Lexeme}
    (h : read p index c rest = .ok l) : l.tail <+: rest := by
  unfold read at h
  split at h
  · rw [tail_of_readNumber h]
    exact List.takeWhile_prefix _
  · split at h
    · rw [tail_of_readName h]
      exact List.takeWhile_prefix _
    · split at h
      · cases h
        exact List.nil_prefix
      · split at h
        · cases h
          exact List.nil_prefix
        · split at h
          · next sign found =>
            cases h
            obtain ⟨behind, eq⟩ := Sign.text_of_leading? found
            obtain ⟨d, ds, written, _⟩ := Sign.leading?_text sign
            rw [written] at eq
            simp only [List.cons_append, List.cons.injEq] at eq
            exact ⟨behind, by rw [written, List.tail_cons, eq.2]⟩
          · cases h

end Lexeme

end Criterion
