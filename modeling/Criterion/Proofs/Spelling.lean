/-
# Criterion.Proofs.Spelling — how one token is written

A text is one lexeme (`Lexeme.Whole`) if nothing is left of it behind the lexeme at its start. The
decimal of an integer is one, also with a `-` before it if it has none itself; so are the words of
the truth values, and every name that is found in a text (`Scan.whole_of_mem`). They are read wherever
a character follows that stops. Operators are less guarded: they end before anything but `=`, `&` and
`|`, and a `-` before anything but these and a digit.

`Scan.Takes` says the same of a scan: before `behind` the text `cs` is one token of a word; and
`Scan.Yields` that it is scanned to several tokens, piece by piece (`Yields.append`).
-/
import Criterion.Proofs.Follow
import Mathlib.Data.List.TakeWhile

namespace Criterion

set_option autoImplicit false

/-! ## Names -/

namespace Lexeme

/-- What starts like a name is one, of the longest run that goes on with it. -/
theorem word_of_read {p : Punctuation} {index : Nat} {c : Char} {rest : List Char} {l : Lexeme}
    (h : read p index c rest = .ok l) (name : startsName c = true) :
    l.word = wordOfName (c :: l.tail) ∧ l.tail = rest.takeWhile (continuesName p) := by
  rw [read_of_startsName p index rest name] at h
  simp only [readName_eq] at h
  split at h <;> cases h
  exact ⟨rfl, rfl⟩

/-- What has a name for its word starts like one. -/
theorem startsName_of_read {p : Punctuation} {index : Nat} {c : Char} {rest : List Char}
    {l : Lexeme} {name : String} (h : read p index c rest = .ok l) (word : l.word = .name name) :
    startsName c = true := by
  cases starts : startsName c with
  | true => rfl
  | false =>
      simp only [read, starts, Bool.false_eq_true, if_false, readNumber] at h
      split at h
      · split at h
        · cases h
        · split at h <;> cases h
          cases word
      · split at h
        · cases h
          cases word
        · split at h
          · cases h
            cases word
          · split at h <;> cases h
            cases word

theorem wordOfName_cases (name : List Char) :
    (∃ b, wordOfName name = .bool b) ∨ wordOfName name = .name (String.ofList name) := by
  unfold wordOfName
  split
  · exact .inl ⟨_, rfl⟩
  · split
    · exact .inl ⟨_, rfl⟩
    · exact .inr rfl

/-- A name is written as it is called. -/
theorem name_of_read {p : Punctuation} {index : Nat} {c : Char} {rest : List Char} {l : Lexeme}
    {name : String} (h : read p index c rest = .ok l) (word : l.word = .name name) :
    name.toList = c :: l.tail := by
  obtain ⟨named, _⟩ := word_of_read h (startsName_of_read h word)
  rcases wordOfName_cases (c :: l.tail) with ⟨b, bool⟩ | written
  · cases word.symm.trans (named.trans bool)
  · cases word.symm.trans (named.trans written)
    exact String.toList_ofList

/-- Letters are one name, which may be a truth value. -/
theorem read_letters (p : Punctuation) {c : Char} {tail : List Char}
    (letters : ∀ d ∈ c :: tail, Text.isAlphabetic d = true) :
    read p 0 c tail = .ok ⟨wordOfName (c :: tail), tail⟩ := by
  have name : startsName c = true := by rw [startsName, letters c (.head _), Bool.true_or]
  have run : tail.takeWhile (continuesName p) = tail := by
    apply List.takeWhile_eq_self_iff.2
    intro d mem
    simp [continuesName, letters d (.tail _ mem)]
  have closed : tail.getLast?.any p.contains = false := by
    cases last : tail.getLast? with
    | none => rfl
    | some d =>
        have letter := letters d (.tail _ (List.mem_of_getLast? last))
        exact not_contains_of_joinsName (by rw [joinsName, letter, Bool.true_or, Bool.true_or])
  rw [read_of_startsName p 0 tail name]
  simp [readName_eq, run, closed]

end Lexeme

theorem Role.ofWord_wordOfName (previous : Option Role) (name : List Char) :
    ofWord previous (Lexeme.wordOfName name) = .value := by
  rcases Lexeme.wordOfName_cases name with ⟨b, word⟩ | word <;> rw [word] <;> rfl

/-! ## Numbers -/

namespace Decimal

/-- One or more digits, with a `-` before them or not. -/
def IsNumeral (cs : List Char) : Prop :=
  ∃ ds, ds ≠ [] ∧ (∀ d ∈ ds, d.isDigit = true) ∧ (cs = ds ∨ cs = '-' :: ds)

theorem isDigit_of_mem_toDigits {n : Nat} {d : Char} (mem : d ∈ Nat.toDigits 10 n) :
    d.isDigit = true :=
  Nat.isDigit_of_mem_toDigits (by decide) (by decide) mem

theorem isNumeral_write (n : Int32) : IsNumeral (write n) := by
  unfold write
  split
  · exact ⟨_, Nat.toDigits_ne_nil, fun _ => isDigit_of_mem_toDigits, .inl rfl⟩
  · exact ⟨_, Nat.toDigits_ne_nil, fun _ => isDigit_of_mem_toDigits, .inr rfl⟩

theorem write_of_lt {n : Int32} (negative : ¬ 0 ≤ n) : ∃ ds, write n = '-' :: ds := by
  rw [Int32.le_iff_toInt_le] at negative
  unfold write
  split
  · next m eq =>
      rw [eq] at negative
      exact absurd (Int.natCast_nonneg m) negative
  · exact ⟨_, rfl⟩

section

variable {n : Int32} (natural : 0 ≤ n)

include natural

theorem write_of_le : ∃ m : Nat, n.toInt = m ∧ write n = Nat.toDigits 10 m := by
  rw [Int32.le_iff_toInt_le] at natural
  unfold write
  split
  · next m eq => exact ⟨m, eq, rfl⟩
  · next m eq =>
      rw [eq] at natural
      exact absurd natural (by simp)

theorem isNumeral_neg : IsNumeral ('-' :: write n) := by
  obtain ⟨m, _, written⟩ := write_of_le natural
  rw [written]
  exact ⟨_, Nat.toDigits_ne_nil, fun _ => isDigit_of_mem_toDigits, .inr rfl⟩

/-- A `-` before the text of an integer that has none negates it. -/
theorem read_neg : read ('-' :: write n) = some (-n) := by
  obtain ⟨m, value, written⟩ := write_of_le natural
  have high := n.toInt_lt
  have negated : Int32.ofInt (-(m : Int)) = -n := by
    rw [Int32.ofInt_neg, ← value, Int32.ofInt_toInt]
  have exact_value : signed ('-' :: Nat.toDigits 10 m) = some (-(m : Int)) := by
    rw [signed, unsigned_toDigits]
    rfl
  rw [read, written, exact_value, Option.bind_some, fit, if_pos ⟨by omega, by omega⟩, negated]

end

end Decimal

/-! ## Whole texts -/

namespace Lexeme

/-- The text is one lexeme. -/
def Whole (p : Punctuation) (cs : List Char) (word : Word) : Prop :=
  ∃ c tail, cs = c :: tail ∧ Text.isBlank c = false ∧ read p 0 c tail = .ok ⟨word, tail⟩

/-- A numeral is a digit, or a `-` before one, and digits behind it. -/
theorem exists_run_of_isNumeral {cs : List Char} (numeral : Decimal.IsNumeral cs) :
    ∃ c tail, cs = c :: tail ∧ Text.isBlank c = false ∧
      (∀ behind, startsNumber c (tail ++ behind) = true) ∧ ∀ d ∈ tail, d.isDigit = true := by
  obtain ⟨ds, some_digit, digits, sign⟩ := numeral
  obtain ⟨d, ds, rfl⟩ := List.exists_cons_of_ne_nil some_digit
  obtain ⟨first, rest⟩ := List.forall_mem_cons.1 digits
  rcases sign with rfl | rfl
  · refine ⟨d, ds, rfl, ?_, fun behind => by simp [startsNumber, first], rest⟩
    cases blank : Text.isBlank d with
    | false => rfl
    | true =>
        rw [Text.isDigit_of_isBlank blank] at first
        cases first
  · exact ⟨'-', d :: ds, rfl, by decide, fun behind => by simp [startsNumber, first], digits⟩

/-- A numeral that ends runs into a name, or is read for its value. -/
theorem read_of_run (p : Punctuation) (index : Nat) {c : Char} {tail behind : List Char}
    (number : startsNumber c (tail ++ behind) = true) (digits : ∀ d ∈ tail, d.isDigit = true)
    (ends : ∀ d, behind.head? = some d → d.isDigit = false) :
    read p index c (tail ++ behind) =
      if behind.head?.any startsName then .error (.mergedNumber (String.ofList (c :: tail)) index)
      else
        match Decimal.read (c :: tail) with
        | some value => .ok ⟨.number value, tail⟩
        | none => .error (.hugeNumber (String.ofList (c :: tail)) index) := by
  rewrite [read, if_pos number, readNumber, takeWhile_append_eq_left_iff.2 ⟨digits, ends⟩,
    dropWhile_append_of_run digits ends]
  rfl

/-- A numeral in the range of 32 bits is one lexeme. -/
theorem whole_of_isNumeral (p : Punctuation) {cs : List Char} {n : Int32}
    (numeral : Decimal.IsNumeral cs) (value : Decimal.read cs = some n) :
    Whole p cs (.number n) := by
  obtain ⟨c, tail, rfl, solid, number, digits⟩ := exists_run_of_isNumeral numeral
  have alone := read_of_run p 0 (number []) digits (by simp)
  refine ⟨c, tail, rfl, solid, ?_⟩
  rw [List.append_nil] at alone
  rw [alone, value]
  rfl

theorem whole_write (p : Punctuation) (n : Int32) : Whole p (Decimal.write n) (.number n) :=
  whole_of_isNumeral p (Decimal.isNumeral_write n) (Decimal.read_write n)

theorem whole_neg (p : Punctuation) {n : Int32} (natural : 0 ≤ n) :
    Whole p ('-' :: Decimal.write n) (.number (-n)) :=
  whole_of_isNumeral p (Decimal.isNumeral_neg natural) (Decimal.read_neg natural)

theorem whole_bool (p : Punctuation) (b : Bool) : Whole p (Expr.bool b).chars (.bool b) := by
  cases b with
  | true =>
      have letters : "true".toList.all Text.isAlphabetic = true := by decide
      exact ⟨'t', ['r', 'u', 'e'], rfl, by decide, read_letters p (List.all_eq_true.1 letters)⟩
  | false =>
      have letters : "false".toList.all Text.isAlphabetic = true := by decide
      exact ⟨'f', ['a', 'l', 's', 'e'], rfl, by decide, read_letters p (List.all_eq_true.1 letters)⟩

end Lexeme

namespace Scan

/-- A name that is found in a text is one lexeme by itself. -/
theorem whole_of_mem {p : Punctuation} (o : Offset) (spaced : Bool) (cs : List Char) :
    ∀ token ∈ (scanFrom p o spaced 0 cs).tokens, ∀ name, token.word = .name name →
      Lexeme.Whole p name.toList (.name name) := by
  refine forall_mem_scanFrom o spaced cs fun o' spaced' c l behind _ solid read name word => ?_
  have ends : Lexeme.Follows p behind [] := fun _ head => (by cases head)
  have alone := Lexeme.read_of_follows read ends 0
  rw [List.append_nil] at alone
  refine ⟨c, l.tail, Lexeme.name_of_read read word, solid, ?_⟩
  rw [alone, ← show l.word = .name name from word]

/-! ## Tokens of a scan -/

/-- Before `behind` the text `cs` is scanned to these tokens. -/
def Yields (p : Punctuation) (o : Offset) (spaced : Bool) (cs behind : List Char)
    (tokens : List Token) : Prop :=
  scanFrom p o spaced 0 (cs ++ behind) =
    Scan.append ⟨tokens, none⟩ (scanFrom p (o.past cs) false 0 behind)

theorem Yields.append {p : Punctuation} {o : Offset} {spaced : Bool} {cs ds behind : List Char}
    {xs ys : List Token} (first : Yields p o spaced cs (ds ++ behind) xs)
    (second : Yields p (o.past cs) false ds behind ys) :
    Yields p o spaced (cs ++ ds) behind (xs ++ ys) := by
  unfold Yields at first second ⊢
  rw [List.append_assoc, first, second, append_of_readable rfl, append_of_readable rfl,
    append_of_readable rfl, List.append_assoc, Offset.past_append]

/-- A text with nothing behind it is scanned to its tokens. -/
theorem Yields.scanFrom_eq {p : Punctuation} {o : Offset} {spaced : Bool} {cs : List Char}
    {tokens : List Token} (h : Yields p o spaced cs [] tokens) :
    scanFrom p o spaced 0 cs = ⟨tokens, none⟩ := by
  unfold Yields at h
  rwa [scanFrom_nil, append_of_readable rfl, List.append_nil, List.append_nil] at h

/-- White space before tokens is seen by the first of them. -/
theorem Yields.blank {p : Punctuation} {o : Offset} {b : Char} {cs behind : List Char}
    {tokens : List Token} (h : Yields p (o.past [b]) true cs behind tokens)
    (blank : Text.isBlank b = true) (spaced : Bool) :
    Yields p o spaced (b :: cs) behind tokens := by
  unfold Yields at h ⊢
  rw [List.cons_append, scanFrom_blank p o spaced blank, h, ← Offset.past_append]
  rfl

/-- Before `behind` the text `cs` is one token of this word. -/
def Takes (p : Punctuation) (cs : List Char) (word : Word) (behind : List Char) : Prop :=
  ∀ o spaced, ∃ token, token.word = word ∧ token.spacedBefore = spaced ∧
    token.spacedAfter = behind.head?.all Text.isBlank ∧ Yields p o spaced cs behind [token]

section

variable {p : Punctuation} {behind : List Char}

theorem takes_of_read {c : Char} {tail : List Char} {word : Word} (solid : Text.isBlank c = false)
    (read : ∀ index, Lexeme.read p index c (tail ++ behind) = .ok ⟨word, tail⟩) :
    Takes p (c :: tail) word behind := fun o spaced =>
  ⟨place o spaced c ⟨word, tail⟩ behind, rfl, rfl, rfl,
    scanFrom_lexeme_append (l := ⟨word, tail⟩) spaced solid (read o.chars)⟩

theorem takes_open (p : Punctuation) (behind : List Char) : Takes p ['('] .openParen behind :=
  takes_of_read (by decide) fun index => Lexeme.read_open p index behind

theorem takes_close (p : Punctuation) (behind : List Char) : Takes p [')'] .closeParen behind :=
  takes_of_read (by decide) fun index => Lexeme.read_close p index behind

/-- What is one lexeme is one token before anything that stops. -/
theorem takes_of_whole {cs : List Char} {word : Word} (whole : Lexeme.Whole p cs word)
    (stop : ∀ d, behind.head? = some d → Lexeme.Stops p d) : Takes p cs word behind := by
  obtain ⟨c, tail, rfl, solid, read⟩ := whole
  refine takes_of_read solid fun index => ?_
  have alone : Lexeme.read p 0 c (tail ++ []) = .ok ⟨word, tail⟩ := by rwa [List.append_nil]
  exact Lexeme.read_of_follows (l := ⟨word, tail⟩) alone (Lexeme.follows_append stop []) index

/-- An operator is one token before anything that could not be a part of it. -/
theorem takes_sign (p : Punctuation) (sign : Sign)
    (plain : ∀ d, behind.head? = some d → d ∉ ['=', '&', '|'])
    (apart : sign = .minus → ∀ d, behind.head? = some d → d.isDigit = false) :
    Takes p sign.text.toList (.sign sign) behind := by
  obtain ⟨c, tail, written, found⟩ := Sign.leading?_text sign
  have leading : Sign.leading? c (tail ++ behind) = some sign := by
    cases tail with
    | cons d rest => exact (Sign.leading?_cons c d _ _).trans found
    | nil =>
        cases behind with
        | nil => exact found
        | cons d rest => exact (Lexeme.leading?_of_plain (plain d rfl) rest).trans found
  have marks : ['!', '~', '-', '+', '*', '/', '%', '<', '>', '=', '&', '|'].all (fun c =>
      !c.isDigit && !Lexeme.startsName c && !Text.isBlank c && c != '(' && c != ')') = true := by
    decide
  have mark : c ∈ ['!', '~', '-', '+', '*', '/', '%', '<', '>', '=', '&', '|'] := by
    cases sign <;> cases written <;> decide
  have known := List.all_eq_true.1 marks c mark
  simp only [Bool.and_eq_true, Bool.not_eq_true', bne_iff_ne] at known
  obtain ⟨⟨⟨⟨digit, name⟩, solid⟩, opening⟩, closing⟩ := known
  have number : Lexeme.startsNumber c (tail ++ behind) = false := by
    by_cases hyphen : c = '-'
    · obtain ⟨minus, rfl⟩ : sign = .minus ∧ tail = [] := by
        cases sign <;> cases written <;> first
          | exact ⟨rfl, rfl⟩
          | cases hyphen
      simp [Lexeme.startsNumber, digit, Lexeme.any_head?_eq_false.2 (apart minus)]
    · simp [Lexeme.startsNumber, digit, hyphen]
  rw [written]
  refine takes_of_read solid fun index => ?_
  simp [Lexeme.read, number, name, opening, closing, leading, written]

end

end Scan

end Criterion
