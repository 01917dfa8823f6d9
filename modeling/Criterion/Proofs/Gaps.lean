/-
# Criterion.Proofs.Gaps — what is left of a text between its tokens

A scan passes over white space only: `Reaches` says how far it came, and that what it passed and is
no white space lies in its tokens. So there is only white space before the first token
(`blank_before`), between two tokens that follow each other (`blank_between`), and behind the last up
to what stopped the scan (`Reaches.blank_behind`), which is the end of the text if nothing did
(`blank_behind`).
-/
import Criterion.Proofs.Scanning

namespace Criterion

set_option autoImplicit false

/-- The characters of the text from `start` up to `stop` are white space. -/
def BlankBetween (text : List Char) (start stop : Nat) : Prop :=
  ∀ i c, start ≤ i → i < stop → text[i]? = some c → Text.isBlank c = true

namespace Scan

variable {p : Punctuation}

/-- The scan `s` of `cs`, which begin at `start`, passed `reached` characters: all of them, or those
before the lexeme that stopped it. Those that are no white space lie in its tokens. -/
structure Reaches (p : Punctuation) (start : Nat) (cs : List Char) (s : Scan) (reached : Nat) :
    Prop where
  whole : s.fault = none → reached = cs.length
  stopped : ∀ cause, s.fault = some cause → ∃ passed c rest, cs = passed ++ c :: rest ∧
    passed.length = reached ∧ Text.isBlank c = false ∧
      Lexeme.read p (start + reached) c rest = .error cause
  inside : ∀ token ∈ s.tokens, token.stop.chars ≤ start + reached
  covered : ∀ i c, i < reached → cs[i]? = some c → Text.isBlank c = false →
    ∃ token ∈ s.tokens, token.start.chars ≤ start + i ∧ start + i < token.stop.chars

/-- A scan that began behind `before` came as far over the whole, if `more` are the tokens there. -/
theorem Reaches.append {start reached : Nat} {cs : List Char} {s : Scan} (before : List Char)
    (more : List Token) (h : Reaches p (start + before.length) cs s reached)
    (ends : ∀ token ∈ more, token.stop.chars ≤ start + before.length)
    (covers : ∀ i c, before[i]? = some c → Text.isBlank c = false →
      ∃ token ∈ more, token.start.chars ≤ start + i ∧ start + i < token.stop.chars) :
    Reaches p start (before ++ cs) ⟨more ++ s.tokens, s.fault⟩ (before.length + reached) where
  whole readable := by rw [h.whole readable, List.length_append]
  stopped cause found := by
    obtain ⟨passed, c, rest, rfl, length, solid, read⟩ := h.stopped cause found
    rw [Nat.add_assoc] at read
    refine ⟨before ++ passed, c, rest, ?_, ?_, solid, read⟩
    · rw [List.append_assoc]
    · rw [List.length_append, length]
  inside token mem := by
    rcases List.mem_append.1 mem with mem | mem
    · have last := ends token mem
      omega
    · have last := h.inside token mem
      omega
  covered i c passed here solid := by
    by_cases first : i < before.length
    · rw [List.getElem?_append_left first] at here
      obtain ⟨token, mem, around⟩ := covers i c here solid
      exact ⟨token, List.mem_append_left _ mem, around⟩
    · rw [List.getElem?_append_right (by omega)] at here
      obtain ⟨token, mem, around⟩ := h.covered _ c (by omega) here solid
      have shift : start + before.length + (i - before.length) = start + i := by omega
      rw [shift] at around
      exact ⟨token, List.mem_append_right _ mem, around⟩

theorem exists_reaches (o : Offset) (spaced : Bool) (cs : List Char) :
    ∃ reached, Reaches p o.chars cs (scanFrom p o spaced 0 cs) reached := by
  induction o, spaced, cs using scan_induction (p := p) with
  | nil o spaced =>
      rw [scanFrom_nil]
      exact ⟨0, fun _ => rfl, fun _ stop => (by cases stop), fun _ mem => (by cases mem),
        fun _ _ passed => absurd passed (Nat.not_lt_zero _)⟩
  | blank o spaced d rest white ih =>
      rw [scanFrom_blank p o spaced white]
      obtain ⟨reached, reaches⟩ := ih
      refine ⟨_, reaches.append [d] [] (fun _ mem => (by cases mem)) ?_⟩
      intro i c here solid
      rw [List.getElem?_singleton] at here
      split at here <;> cases here
      rw [white] at solid
      cases solid
  | fault o spaced d rest cause solid read =>
      rw [scanFrom_fault p o spaced solid read]
      refine ⟨0, fun none => (by cases none), fun _ stop => ?_, fun _ mem => (by cases mem),
        fun _ _ passed => absurd passed (Nat.not_lt_zero _)⟩
      cases stop
      exact ⟨[], d, rest, rfl, rfl, solid, read⟩
  | lexeme o spaced d l behind solid read ih =>
      rw [scanFrom_lexeme_append spaced solid read]
      obtain ⟨reached, reaches⟩ := ih
      refine ⟨_, reaches.append (d :: l.tail) [place o spaced d l behind] ?_ ?_⟩
      · intro other mem
        rw [List.mem_singleton.1 mem]
        exact Nat.le_refl _
      · intro i c here _
        obtain ⟨inside, _⟩ := List.getElem?_eq_some_iff.1 here
        refine ⟨_, .head _, Nat.le_add_right _ i, ?_⟩
        show o.chars + i < o.chars + (d :: l.tail).length
        omega

/-- The end of the last token, or the start of the text if there is none. -/
def stop (s : Scan) : Nat := s.tokens.getLast?.elim 0 fun last => last.stop.chars

section

variable {source : String}

/-- How far the scan of a text came. -/
theorem exists_reached (p : Punctuation) (source : String) :
    ∃ reached, Reaches p 0 source.toList (ofText p source) reached :=
  exists_reaches .zero true source.toList

/-- What a scan passed is white space where no token is. -/
theorem Reaches.blank {text : List Char} {s : Scan} {reached start stop : Nat}
    (h : Reaches p 0 text s reached) (passed : stop ≤ reached)
    (outside : ∀ token ∈ s.tokens, token.stop.chars ≤ start ∨ stop ≤ token.start.chars) :
    BlankBetween text start stop := by
  intro i c first last here
  cases solid : Text.isBlank c with
  | true => rfl
  | false =>
      obtain ⟨token, mem, around⟩ := h.covered i c (by omega) here solid
      have apart := outside token mem
      omega

/-- No token ends behind a token but those that come after it. -/
theorem stop_le_or_mem {before behind : List Token} {a token : Token}
    (split : (ofText p source).tokens = before ++ a :: behind)
    (mem : token ∈ (ofText p source).tokens) :
    token.stop.chars ≤ a.stop.chars ∨ token ∈ behind := by
  have ordered := pairwise_ofText p source
  have mem_a : a ∈ (ofText p source).tokens := by simp [split]
  have long := (lies_of_mem_ofText mem_a).long
  rw [split] at ordered mem
  rcases List.mem_append.1 mem with mem | mem
  · have earlier := (List.pairwise_append.1 ordered).2.2 token mem a (.head _)
    exact .inl (by omega)
  · rcases List.mem_cons.1 mem with rfl | mem
    · exact .inl (Nat.le_refl _)
    · exact .inr mem

/-- No token after a token starts before it. -/
theorem start_le_of_split {before behind : List Token} {a token : Token}
    (split : (ofText p source).tokens = before ++ a :: behind) (mem : token ∈ a :: behind) :
    a.start.chars ≤ token.start.chars := by
  have ordered := pairwise_ofText p source
  have mem_a : a ∈ (ofText p source).tokens := by simp [split]
  have long := (lies_of_mem_ofText mem_a).long
  rw [split, List.pairwise_append, List.pairwise_cons] at ordered
  rcases List.mem_cons.1 mem with rfl | mem
  · exact Nat.le_refl _
  · have later := ordered.2.1.1 token mem
    omega

theorem stop_of_split {s : Scan} {before : List Token} {a : Token} (split : s.tokens = before ++ [a]) :
    s.stop = a.stop.chars := by
  rw [stop, split, List.getLast?_concat]
  rfl

theorem stop_of_nil {s : Scan} (none : s.tokens = []) : s.stop = 0 := by
  rw [stop, none]
  rfl

/-- No token ends behind the last. -/
theorem stop_le_stop {token : Token} (mem : token ∈ (ofText p source).tokens) :
    token.stop.chars ≤ (ofText p source).stop := by
  rcases List.eq_nil_or_concat (ofText p source).tokens with none | ⟨before, a, split⟩
  · rw [none] at mem
    cases mem
  · rw [List.concat_eq_append] at split
    rw [stop_of_split split]
    rcases stop_le_or_mem split mem with earlier | later
    · exact earlier
    · cases later

/-- Before the first token there is only white space. -/
theorem blank_before {first : Token} {behind : List Token}
    (split : (ofText p source).tokens = first :: behind) :
    BlankBetween source.toList 0 first.start.chars := by
  obtain ⟨reached, reaches⟩ := exists_reached p source
  have mem : first ∈ (ofText p source).tokens := by simp [split]
  have long := (lies_of_mem_ofText mem).long
  have inside := reaches.inside first mem
  refine reaches.blank (by omega) fun token mem => .inr ?_
  rw [split] at mem
  exact start_le_of_split (split.trans (List.nil_append _).symm) mem

/-- Between two tokens that follow each other there is only white space. -/
theorem blank_between {before behind : List Token} {a b : Token}
    (split : (ofText p source).tokens = before ++ a :: b :: behind) :
    BlankBetween source.toList a.stop.chars b.start.chars := by
  obtain ⟨reached, reaches⟩ := exists_reached p source
  have split_b : (ofText p source).tokens = (before ++ [a]) ++ b :: behind := by simp [split]
  have mem_b : b ∈ (ofText p source).tokens := by simp [split]
  have long := (lies_of_mem_ofText mem_b).long
  have inside := reaches.inside b mem_b
  refine reaches.blank (by omega) fun token mem => ?_
  rcases stop_le_or_mem split mem with earlier | later
  · exact .inl earlier
  · exact .inr (start_le_of_split split_b later)

/-- Behind the last token there is only white space, as far as the scan came. -/
theorem Reaches.blank_behind {reached : Nat}
    (h : Reaches p 0 source.toList (ofText p source) reached) :
    BlankBetween source.toList (ofText p source).stop reached :=
  h.blank (Nat.le_refl _) fun _ mem => .inl (stop_le_stop mem)

/-- If nothing stopped the scan, it came to the end. -/
theorem blank_to_end (readable : (ofText p source).fault = none) :
    BlankBetween source.toList (ofText p source).stop source.toList.length := by
  obtain ⟨reached, reaches⟩ := exists_reached p source
  exact reaches.whole readable ▸ reaches.blank_behind

theorem blank_behind (readable : (ofText p source).fault = none) {before : List Token} {a : Token}
    (split : (ofText p source).tokens = before ++ [a]) :
    BlankBetween source.toList a.stop.chars source.toList.length :=
  stop_of_split split ▸ blank_to_end readable

/-- A text without tokens is white space. -/
theorem blank_of_nil (readable : (ofText p source).fault = none)
    (none : (ofText p source).tokens = []) :
    BlankBetween source.toList 0 source.toList.length :=
  stop_of_nil none ▸ blank_to_end readable

end

end Scan

end Criterion
