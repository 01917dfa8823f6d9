/-
# Criterion.Proofs.Follow — what stands behind a lexeme

A lexeme ends where the text behind it does not go on with it. All that counts is the next character:
if that stays, or is replaced by one that goes on with no lexeme, or by the end of the text, the
lexeme is read as before (`Lexeme.read_of_follows`). White space and parentheses are such characters
(`Lexeme.Stops`).

So a text that is scanned to its end is scanned alike inside another one, where white space or a
parenthesis follows (`Scan.scanFrom_append_stop`). Its first and last token may see other white space
there; all others see what they saw (`Token.Carried`).
-/
import Criterion.Proofs.Places
import Mathlib.Data.List.Forall2

namespace Criterion

set_option autoImplicit false

namespace Lexeme

/-! ## The end of a run -/

section

variable {α : Type} {q : α → Bool} {xs ys : List α}

/-- A run ends before the first character that does not go on with it. -/
theorem takeWhile_append_eq_left_iff :
    (xs ++ ys).takeWhile q = xs ↔
      (∀ x ∈ xs, q x = true) ∧ ∀ y, ys.head? = some y → q y = false := by
  constructor
  · intro run
    have inside : ∀ x ∈ xs, q x = true := by
      rw [← run]
      exact List.all_eq_true.1 List.all_takeWhile
    refine ⟨inside, fun y head => ?_⟩
    obtain ⟨rest, rfl⟩ := List.head?_eq_some_iff.1 head
    rw [List.takeWhile_append_of_pos inside, List.append_right_eq_self] at run
    cases goes_on : q y with
    | false => rfl
    | true => simp [goes_on] at run
  · rintro ⟨inside, ends⟩
    rw [List.takeWhile_append_of_pos inside, List.append_right_eq_self]
    cases ys with
    | nil => rfl
    | cons y rest => simp [ends y rfl]

theorem dropWhile_append_of_run (inside : ∀ x ∈ xs, q x = true)
    (ends : ∀ y, ys.head? = some y → q y = false) : (xs ++ ys).dropWhile q = ys := by
  rw [List.dropWhile_append_of_pos inside]
  cases ys with
  | nil => rfl
  | cons y rest => simp [ends y rfl]

end

/-! ## The next character -/

/-- A character that goes on with no lexeme. -/
structure Stops (p : Punctuation) (c : Char) : Prop where
  digit : c.isDigit = false
  start : startsName c = false
  name : continuesName p c = false
  sign : c ∉ ['=', '&', '|']

theorem stops_of_isBlank (p : Punctuation) {c : Char} (blank : Text.isBlank c = true) :
    Stops p c where
  digit := Text.isDigit_of_isBlank blank
  start := startsName_of_isBlank blank
  name := continuesName_of_isBlank p blank
  sign mem := by
    have solid : ∀ d ∈ ['=', '&', '|'], Text.isBlank d = false := Text.solid_of_all (by decide)
    rw [solid c mem] at blank
    cases blank

theorem stops_of_paren (p : Punctuation) {c : Char} (paren : c ∈ ['(', ')']) : Stops p c := by
  have mark := p.contains_of_paren paren
  have classes : ['(', ')'].all (fun c => !c.isDigit && !startsName c && !Text.isAlphabetic c &&
      !Text.isNumeric c && c != '_' && !(['=', '&', '|'].contains c)) = true := by decide
  have known := List.all_eq_true.1 classes c paren
  simp only [Bool.and_eq_true, Bool.not_eq_true', bne_iff_ne] at known
  obtain ⟨⟨⟨⟨⟨digit, start⟩, letter⟩, number⟩, line⟩, sign⟩ := known
  refine ⟨digit, start, ?_, ?_⟩
  · simp [continuesName, letter, number, line, mark]
  · simpa using sign

/-- What may be written for the text behind a lexeme: its next character stays or is one that stops,
if there is one at all. -/
def Follows (p : Punctuation) (behind behind' : List Char) : Prop :=
  ∀ d, behind'.head? = some d → behind.head? = some d ∨ Stops p d

theorem Follows.refl (p : Punctuation) (behind : List Char) : Follows p behind behind :=
  fun _ head => .inl head

theorem follows_append {p : Punctuation} {more : List Char}
    (stop : ∀ d, more.head? = some d → Stops p d) (behind : List Char) :
    Follows p behind (behind ++ more) := by
  intro d head
  cases behind with
  | nil => exact .inr (stop d head)
  | cons b rest => exact .inl head

section

variable {p : Punctuation} {behind behind' : List Char}

/-- A class without the characters that stop does not go on behind the other text either. -/
theorem Follows.ends (next : Follows p behind behind') {q : Char → Bool}
    (apart : ∀ d, Stops p d → q d = false) (closed : ∀ d, behind.head? = some d → q d = false) :
    ∀ d, behind'.head? = some d → q d = false := by
  intro d head
  rcases next d head with same | stop
  · exact closed d same
  · exact apart d stop

theorem any_head?_eq_false {q : Char → Bool} {cs : List Char} :
    cs.head?.any q = false ↔ ∀ d, cs.head? = some d → q d = false := by
  cases cs <;> simp

theorem Follows.any_eq_false (next : Follows p behind behind') {q : Char → Bool}
    (apart : ∀ d, Stops p d → q d = false) (closed : behind.head?.any q = false) :
    behind'.head?.any q = false :=
  any_head?_eq_false.2 (next.ends apart (any_head?_eq_false.1 closed))

variable {c : Char} {tail : List Char}

theorem startsNumber_eq_false_of_follows (next : Follows p behind behind')
    (h : startsNumber c (tail ++ behind) = false) : startsNumber c (tail ++ behind') = false := by
  cases tail with
  | nil =>
      simp only [startsNumber, List.nil_append, Bool.or_eq_false_iff, Bool.and_eq_false_iff] at h ⊢
      refine ⟨h.1, h.2.imp id (next.any_eq_false fun _ stop => stop.digit)⟩
  | cons d rest => exact h

/-- A `-` belongs to the digits behind it, whatever stands behind those. -/
theorem startsNumber_eq_true_of_run (behind' : List Char)
    (h : startsNumber c (tail ++ behind) = true)
    (ends : ∀ d, behind.head? = some d → d.isDigit = false) :
    startsNumber c (tail ++ behind') = true := by
  cases tail with
  | nil =>
      have none : behind.head?.any Char.isDigit = false := any_head?_eq_false.2 ends
      simp only [startsNumber, List.nil_append, none, Bool.and_false, Bool.or_false] at h
      simp [startsNumber, h]
  | cons d rest => exact h

/-- Only `=`, `&` and `|` are second characters of operators. -/
theorem leading?_of_plain {d : Char} (plain : d ∉ ['=', '&', '|']) (rest : List Char) :
    Sign.leading? c (d :: rest) = Sign.leading? c [] := by
  simp only [List.mem_cons, List.not_mem_nil, or_false, not_or] at plain
  unfold Sign.leading?
  split <;> simp_all

/-- An operator of one character is found at the end of a text too. -/
theorem leading?_nil_of_short {sign : Sign} (h : Sign.leading? c behind = some sign)
    (short : sign.text.toList.tail = []) : Sign.leading? c [] = some sign := by
  unfold Sign.leading? at h
  split at h <;> cases h <;> first
    | rfl
    | exact absurd short (by decide)

theorem leading?_of_follows {sign : Sign} (next : Follows p behind behind')
    (h : Sign.leading? c (sign.text.toList.tail ++ behind) = some sign) :
    Sign.leading? c (sign.text.toList.tail ++ behind') = some sign := by
  cases tail : sign.text.toList.tail with
  | cons d rest =>
      rw [tail] at h
      exact (Sign.leading?_cons c d _ _).trans h
  | nil =>
      rw [tail, List.nil_append] at h
      rw [List.nil_append]
      cases behind' with
      | nil => exact leading?_nil_of_short h tail
      | cons d rest =>
          rcases next d rfl with same | stop
          · obtain ⟨more, rfl⟩ := List.head?_eq_some_iff.1 same
            exact (Sign.leading?_cons c d _ _).trans h
          · exact (leading?_of_plain stop.sign rest).trans (leading?_nil_of_short h tail)

end

/-- A lexeme is read wherever the next character allows it. -/
theorem read_of_follows {p : Punctuation} {index : Nat} {c : Char} {l : Lexeme}
    {behind behind' : List Char} (h : read p index c (l.tail ++ behind) = .ok l)
    (next : Follows p behind behind') (index' : Nat) :
    read p index' c (l.tail ++ behind') = .ok l := by
  suffices here : read p index c (l.tail ++ behind') = .ok l from read_anywhere here index'
  unfold read at h ⊢
  split at h
  · next number =>
      obtain ⟨digits, ends⟩ := takeWhile_append_eq_left_iff.1 (tail_of_readNumber h).symm
      have ends' := next.ends (fun _ stop => stop.digit) ends
      rw [if_pos (startsNumber_eq_true_of_run behind' number ends)]
      simp only [readNumber, takeWhile_append_eq_left_iff.2 ⟨digits, ends⟩,
        dropWhile_append_of_run digits ends] at h
      simp only [readNumber, takeWhile_append_eq_left_iff.2 ⟨digits, ends'⟩,
        dropWhile_append_of_run digits ends']
      split at h
      · cases h
      · next apart =>
          have apart' := next.any_eq_false (fun _ stop => stop.start) (Bool.eq_false_iff.2 apart)
          rw [apart', if_neg Bool.false_ne_true]
          exact h
  · next number =>
      have number' := startsNumber_eq_false_of_follows next (Bool.eq_false_iff.2 number)
      rw [number', if_neg Bool.false_ne_true]
      split at h
      · next name =>
          obtain ⟨run, ends⟩ := takeWhile_append_eq_left_iff.1 (tail_of_readName h).symm
          have ends' := next.ends (fun _ stop => stop.name) ends
          simp only [readName_eq, takeWhile_append_eq_left_iff.2 ⟨run, ends⟩] at h
          rw [if_pos name]
          simp only [readName_eq, takeWhile_append_eq_left_iff.2 ⟨run, ends'⟩]
          exact h
      · next name =>
          rw [if_neg name]
          split at h
          · next opening =>
              rw [if_pos opening]
              exact h
          · next opening =>
              rw [if_neg opening]
              split at h
              · next closing =>
                  rw [if_pos closing]
                  exact h
              · next closing =>
                  rw [if_neg closing]
                  split at h
                  · next sign found =>
                      cases h
                      rw [leading?_of_follows next found]
                  · cases h

theorem read_open (p : Punctuation) (index : Nat) (rest : List Char) :
    read p index '(' rest = .ok ⟨.openParen, []⟩ := by
  have number : startsNumber '(' rest = false := rfl
  have name : startsName '(' = false := (stops_of_paren p (by decide)).start
  simp [read, number, name]

theorem read_close (p : Punctuation) (index : Nat) (rest : List Char) :
    read p index ')' rest = .ok ⟨.closeParen, []⟩ := by
  have number : startsNumber ')' rest = false := rfl
  have name : startsName ')' = false := (stops_of_paren p (by decide)).start
  simp [read, number, name]

end Lexeme

/-! ## A text inside another one -/

/-- `copy` is the token in another text. That text is the same between the places `first` and `last`
of the token's own text, so within them the same white space is seen. -/
structure Token.Carried (first last : Nat) (token copy : Token) : Prop where
  word : copy.word = token.word
  before : first ≤ token.start.chars → copy.spacedBefore = token.spacedBefore
  behind : token.stop.chars < last → copy.spacedAfter = token.spacedAfter

namespace Scan

variable {p : Punctuation}

theorem scanFrom_open (o : Offset) (spaced : Bool) (rest : List Char) :
    scanFrom p o spaced 0 ('(' :: rest) =
      (scanFrom p (o.past ['(']) false 0 rest).cons (place o spaced '(' ⟨.openParen, []⟩ rest) :=
  scanFrom_lexeme p o spaced (by decide) (Lexeme.read_open p o.chars rest)

theorem scanFrom_close (o : Offset) (spaced : Bool) (rest : List Char) :
    scanFrom p o spaced 0 (')' :: rest) =
      (scanFrom p (o.past [')']) false 0 rest).cons (place o spaced ')' ⟨.closeParen, []⟩ rest) :=
  scanFrom_lexeme p o spaced (by decide) (Lexeme.read_close p o.chars rest)

/-- A text at no fault is scanned alike inside another one, where a character that stops follows. Only
what is before it may make a difference, and only to a token at its start. -/
theorem scanFrom_append_stop {more : List Char}
    (stop : ∀ d, more.head? = some d → Lexeme.Stops p d) (o : Offset) (spaced : Bool)
    (cs : List Char) (readable : (scanFrom p o spaced 0 cs).fault = none) (o' : Offset)
    (spaced' : Bool) {first : Nat} (alike : spaced = spaced' ∨ o.chars < first) :
    ∃ copies last,
      List.Forall₂ (Token.Carried first (o.past cs).chars) (scanFrom p o spaced 0 cs).tokens
        copies ∧
      scanFrom p o' spaced' 0 (cs ++ more) =
        Scan.append ⟨copies, none⟩ (scanFrom p (o'.past cs) last 0 more) := by
  induction o, spaced, cs using scan_induction (p := p) generalizing o' spaced' with
  | nil o spaced =>
      refine ⟨[], spaced', ?_, rfl⟩
      rw [scanFrom_nil]
      exact .nil
  | blank o spaced c rest white ih =>
      rw [scanFrom_blank p o spaced white] at readable ⊢
      obtain ⟨copies, last, carried, scanned⟩ := ih readable (o'.past [c]) true (.inl rfl)
      refine ⟨copies, last, ?_, ?_⟩
      · rw [← Offset.past_append] at carried
        exact carried
      · rw [← Offset.past_append] at scanned
        rw [List.cons_append, scanFrom_blank p o' spaced' white]
        exact scanned
  | fault o spaced c rest cause solid read =>
      rw [scanFrom_fault p o spaced solid read] at readable
      cases readable
  | lexeme o spaced c l behind solid read ih =>
      rw [scanFrom_lexeme_append spaced solid read] at readable ⊢
      obtain ⟨copies, last, carried, scanned⟩ :=
        ih readable (o'.past (c :: l.tail)) false (.inl rfl)
      have read' := Lexeme.read_of_follows read (Lexeme.follows_append stop behind) o'.chars
      have all : c :: (l.tail ++ behind) = (c :: l.tail) ++ behind := rfl
      rw [← Offset.past_append, ← all] at carried scanned
      refine ⟨place o' spaced' c l (behind ++ more) :: copies, last, .cons ?_ carried, ?_⟩
      · refine ⟨rfl, fun le => ?_, fun lt => ?_⟩
        · exact (alike.resolve_right fun lt => Nat.not_lt.2 le lt).symm
        · -- The text goes on behind the token, so what follows the text is not what it sees.
          cases behind with
          | nil => simp [place] at lt
          | cons d rest => rfl
      · rw [List.cons_append, List.append_assoc, scanFrom_lexeme_append spaced' solid read',
          scanned]
        rfl

end Scan

end Criterion
