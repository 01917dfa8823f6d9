/-
# Criterion.Proofs.Scanning — where tokens lie, and what separates them

`scan_induction` is the way every fact about scans is proved: a text is empty, or begins with white
space, or with letters at fault, or with a lexeme and what is left behind it.

* `scanFrom_append_blank`: a scan over white space is the scan of what is before it and then, if
  that is not at fault, the scan of what is behind it.
* `lies_of_mem_ofText`: a token is written in the text at its place, holds no white space, and says
  truly whether there is any next to it.
* `pairwise_ofText`: tokens follow each other without overlap.
-/
import Criterion.Proofs.Letters

namespace Criterion

set_option autoImplicit false

namespace Scan

/-! ## One lexeme after the other -/

section

variable {p : Punctuation}

theorem scanFrom_lexeme_append {o : Offset} {c : Char} {l : Lexeme} {behind : List Char}
    (spaced : Bool) (solid : Text.isBlank c = false)
    (h : Lexeme.read p o.chars c (l.tail ++ behind) = .ok l) :
    scanFrom p o spaced 0 (c :: (l.tail ++ behind)) =
      (scanFrom p (o.past (c :: l.tail)) false 0 behind).cons (place o spaced c l behind) := by
  rw [scanFrom_lexeme p o spaced solid h, List.drop_left]

/-- A scan goes over white space character by character, and over the rest lexeme by lexeme. -/
theorem scan_induction {motive : Offset → Bool → List Char → Prop}
    (nil : ∀ o spaced, motive o spaced [])
    (blank : ∀ o spaced c rest, Text.isBlank c = true → motive (o.past [c]) true rest →
      motive o spaced (c :: rest))
    (fault : ∀ o spaced c rest cause, Text.isBlank c = false →
      Lexeme.read p o.chars c rest = .error cause → motive o spaced (c :: rest))
    (lexeme : ∀ o spaced c (l : Lexeme) behind, Text.isBlank c = false →
      Lexeme.read p o.chars c (l.tail ++ behind) = .ok l →
      motive (o.past (c :: l.tail)) false behind → motive o spaced (c :: (l.tail ++ behind)))
    (o : Offset) (spaced : Bool) (cs : List Char) : motive o spaced cs := by
  generalize length : cs.length = n
  induction n using Nat.strongRecOn generalizing o spaced cs with
  | ind n ih =>
    cases cs with
    | nil => exact nil o spaced
    | cons c rest =>
      rw [List.length_cons] at length
      by_cases white : Text.isBlank c = true
      · exact blank o spaced c rest white (ih rest.length (by omega) _ _ _ rfl)
      · have solid : Text.isBlank c = false := Bool.eq_false_iff.2 white
        cases read : Lexeme.read p o.chars c rest with
        | error cause => exact fault o spaced c rest cause solid read
        | ok l =>
            obtain ⟨behind, rfl⟩ := Lexeme.tail_isPrefixOf read
            have shorter : behind.length < n := by
              rw [List.length_append] at length
              omega
            exact lexeme o spaced c l behind solid read (ih _ shorter _ _ _ rfl)

/-- What holds of each lexeme in its place holds of all tokens. -/
theorem forall_mem_scanFrom {motive : Token → Prop} (o : Offset) (spaced : Bool) (cs : List Char)
    (each : ∀ o' spaced' c (l : Lexeme) behind, o.chars ≤ o'.chars → Text.isBlank c = false →
      Lexeme.read p o'.chars c (l.tail ++ behind) = .ok l → motive (place o' spaced' c l behind)) :
    ∀ token ∈ (scanFrom p o spaced 0 cs).tokens, motive token := by
  induction o, spaced, cs using scan_induction (p := p) with
  | nil o spaced => simp [scanFrom_nil]
  | blank o spaced c rest white ih =>
      rw [scanFrom_blank p o spaced white]
      exact ih fun o' spaced' c l behind le => each o' spaced' c l behind (Nat.le_of_succ_le le)
  | fault o spaced c rest cause solid read => simp [scanFrom_fault p o spaced solid read]
  | lexeme o spaced c l behind solid read ih =>
      rw [scanFrom_lexeme_append spaced solid read]
      refine List.forall_mem_cons.2 ⟨each o spaced c l behind (Nat.le_refl _) solid read, ?_⟩
      exact ih fun o' spaced' c l behind le =>
        each o' spaced' c l behind (Nat.le_trans (Nat.le_add_right ..) le)

end

/-! ## White space between -/

/-- One scan and, if it is not at fault, the tokens and the fault of another behind it. -/
def append (s t : Scan) : Scan :=
  match s.fault with
  | some _ => s
  | none => ⟨s.tokens ++ t.tokens, t.fault⟩

theorem append_of_readable {s : Scan} (h : s.fault = none) (t : Scan) :
    s.append t = ⟨s.tokens ++ t.tokens, t.fault⟩ := by
  rw [append, h]

theorem append_of_fault {s : Scan} {cause : LexicalFault} (h : s.fault = some cause) (t : Scan) :
    s.append t = s := by
  rw [append, h]

theorem cons_append (token : Token) (s t : Scan) :
    (s.cons token).append t = (s.append t).cons token := by
  cases h : s.fault with
  | none => rw [append_of_readable h, append_of_readable (s := s.cons token) h]; rfl
  | some cause => rw [append_of_fault h, append_of_fault (s := s.cons token) h]

/-- White space behind a token looks like the end of the text. -/
theorem place_append_blank (start : Offset) (spaced : Bool) (c : Char) (l : Lexeme)
    (behind more : List Char) {b : Char} (blank : Text.isBlank b = true) :
    place start spaced c l (behind ++ b :: more) = place start spaced c l behind := by
  cases behind with
  | nil => simp [place, blank]
  | cons d ds => rfl

/-- White space cuts a scan in two. -/
theorem scanFrom_append_blank (p : Punctuation) {b : Char} (blank : Text.isBlank b = true)
    (more : List Char) (o : Offset) (spaced : Bool) (cs : List Char) :
    scanFrom p o spaced 0 (cs ++ b :: more) =
      (scanFrom p o spaced 0 cs).append (scanFrom p (o.past (cs ++ [b])) true 0 more) := by
  induction o, spaced, cs using scan_induction (p := p) with
  | nil o spaced =>
      rw [List.nil_append, scanFrom_blank p o spaced blank, scanFrom_nil,
        append_of_readable rfl]
      rfl
  | blank o spaced c rest white ih =>
      rw [List.cons_append, scanFrom_blank p o spaced white, scanFrom_blank p o spaced white, ih,
        ← Offset.past_append]
      rfl
  | fault o spaced c rest cause solid read =>
      have reads : Lexeme.read p o.chars c (rest ++ b :: more) = .error cause := by
        rw [Lexeme.read_append_blank rest more blank, read]
      rw [List.cons_append, scanFrom_fault p o spaced solid reads,
        scanFrom_fault p o spaced solid read, append_of_fault rfl]
  | lexeme o spaced c l behind solid read ih =>
      have reads : Lexeme.read p o.chars c (l.tail ++ (behind ++ b :: more)) = .ok l := by
        rw [← List.append_assoc, Lexeme.read_append_blank _ more blank, read]
      have cut : c :: (l.tail ++ behind) ++ b :: more =
          c :: (l.tail ++ (behind ++ b :: more)) := by simp
      have ends : o.past (c :: (l.tail ++ behind) ++ [b]) =
          (o.past (c :: l.tail)).past (behind ++ [b]) := by
        rw [← Offset.past_append]
        simp
      rw [cut, ends, scanFrom_lexeme_append spaced solid reads,
        scanFrom_lexeme_append spaced solid read, ih, cons_append,
        place_append_blank _ _ _ _ _ _ blank]

/-! ## Places -/

end Scan

/-- The token is written at its place in the text, and sees the white space there. -/
structure Token.Lies (token : Token) (text : List Char) : Prop where
  start : token.start = Offset.zero.past (text.take token.start.chars)
  stop : token.stop = Offset.zero.past (text.take token.stop.chars)
  written : text.drop token.start.chars = token.text.toList ++ text.drop token.stop.chars
  long : token.start.chars < token.stop.chars
  inside : token.stop.chars ≤ text.length
  solid : ∀ c ∈ token.text.toList, Text.isBlank c = false
  before : token.spacedBefore = (text.take token.start.chars).getLast?.all Text.isBlank
  behind : token.spacedAfter = (text.drop token.stop.chars).head?.all Text.isBlank

namespace Scan

/-- A lexeme behind `before` lies in the text it was read from. -/
theorem lies_place {p : Punctuation} {before behind : List Char} {c : Char} {l : Lexeme}
    (solid : Text.isBlank c = false)
    (read : Lexeme.read p (Offset.zero.past before).chars c (l.tail ++ behind) = .ok l) :
    (place (.past .zero before) (before.getLast?.all Text.isBlank) c l behind).Lies
      (before ++ c :: (l.tail ++ behind)) := by
  have split : before ++ c :: (l.tail ++ behind) = (before ++ c :: l.tail) ++ behind := by simp
  have start : (Offset.zero.past before).chars = before.length := Nat.zero_add _
  have stop : (Offset.past (.past .zero before) (c :: l.tail)).chars =
      (before ++ c :: l.tail).length := by
    simp [Offset.past, Offset.zero]
  constructor
  case start =>
    simp only [place]
    rw [start, List.take_left]
  case stop =>
    simp only [place]
    rw [stop, split, List.take_left, Offset.past_append]
  case written =>
    simp only [place]
    rw [start, stop, List.drop_left, split, List.drop_left]
    simp
  case long =>
    simp only [place, start, stop, List.length_append, List.length_cons]
    omega
  case inside =>
    simp only [place]
    rw [stop, split]
    simp only [List.length_append]
    omega
  case solid =>
    simp only [place]
    intro d mem
    rw [String.toList_ofList] at mem
    rcases List.mem_cons.1 mem with rfl | mem
    · exact solid
    · exact Lexeme.solid read d mem
  case before =>
    simp only [place]
    rw [start, List.take_left]
  case behind =>
    simp only [place]
    rw [stop, split, List.drop_left]

section

variable {p : Punctuation}

/-- The last of characters that are no white space is none. -/
theorem not_blank_getLast? (before : List Char) {cs : List Char} (some_char : cs ≠ [])
    (solid : ∀ c ∈ cs, Text.isBlank c = false) :
    (before ++ cs).getLast?.all Text.isBlank = false := by
  rw [List.getLast?_append, List.getLast?_eq_some_getLast some_char, Option.some_or]
  exact solid _ (List.getLast_mem some_char)

/-- The tokens of a text lie in it, in their order. -/
theorem lies_scanFrom (o : Offset) (spaced : Bool) (cs before : List Char)
    (here : o = Offset.zero.past before) (seen : spaced = before.getLast?.all Text.isBlank) :
    (∀ token ∈ (scanFrom p o spaced 0 cs).tokens,
      token.Lies (before ++ cs) ∧ before.length ≤ token.start.chars) ∧
    (scanFrom p o spaced 0 cs).tokens.Pairwise fun a b => a.stop.chars ≤ b.start.chars := by
  induction o, spaced, cs using scan_induction (p := p) generalizing before with
  | nil o spaced =>
      rw [scanFrom_nil]
      exact ⟨fun _ mem => (by cases mem), .nil⟩
  | blank o spaced c rest white ih =>
      rw [scanFrom_blank p o spaced white]
      have further : o.past [c] = Offset.zero.past (before ++ [c]) := by
        rw [here, Offset.past_append]
      obtain ⟨lie, ordered⟩ := ih (before ++ [c]) further (by simp [white])
      refine ⟨fun token mem => ?_, ordered⟩
      obtain ⟨lies, first⟩ := lie token mem
      rw [List.append_cons]
      rw [List.length_append] at first
      exact ⟨lies, by omega⟩
  | fault o spaced c rest cause solid read =>
      rw [scanFrom_fault p o spaced solid read]
      exact ⟨fun _ mem => (by cases mem), .nil⟩
  | lexeme o spaced c l behind solid read ih =>
      rw [scanFrom_lexeme_append spaced solid read]
      subst here seen
      have further : Offset.past (.past .zero before) (c :: l.tail) =
          Offset.zero.past (before ++ c :: l.tail) := by
        rw [Offset.past_append]
      have last : (before ++ c :: l.tail).getLast?.all Text.isBlank = false :=
        not_blank_getLast? before (by simp) (List.forall_mem_cons.2 ⟨solid, Lexeme.solid read⟩)
      obtain ⟨lie, ordered⟩ := ih (before ++ c :: l.tail) further last.symm
      have split : before ++ c :: (l.tail ++ behind) = (before ++ c :: l.tail) ++ behind := by simp
      refine ⟨fun token mem => ?_, List.pairwise_cons.2 ⟨fun token mem => ?_, ordered⟩⟩
      · rcases List.mem_cons.1 mem with rfl | mem
        · exact ⟨lies_place solid read, by simp [place, Offset.past, Offset.zero]⟩
        · obtain ⟨lies, first⟩ := lie token mem
          rw [List.length_append] at first
          exact ⟨split ▸ lies, by omega⟩
      · obtain ⟨_, first⟩ := lie token mem
        simp only [place, further]
        simpa [Offset.past, Offset.zero] using first

/-- A token of a text lies in it. -/
theorem lies_of_mem_ofText {source : String} {token : Token}
    (mem : token ∈ (ofText p source).tokens) : token.Lies source.toList :=
  ((lies_scanFrom .zero true source.toList [] rfl rfl).1 token mem).1

/-- The tokens of a text do not overlap. -/
theorem pairwise_ofText (p : Punctuation) (source : String) :
    (ofText p source).tokens.Pairwise fun a b => a.stop.chars ≤ b.start.chars :=
  (lies_scanFrom .zero true source.toList [] rfl rfl).2

end

end Scan

end Criterion
