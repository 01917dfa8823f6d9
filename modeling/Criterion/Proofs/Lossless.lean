/-
# Criterion.Proofs.Lossless — a scan loses nothing of the text

A text is its tokens and the white space around them, up to the lexeme that stopped the scan if one
did. `Scan.Lossless` says it part by part: the tokens are slices of the text at the places they bear
(`Token.IsSlice`), in its order; what is before, between and behind them is white space; and the
scan stopped where it says. Places count bytes of UTF-8 and characters alike, whatever the text
holds, because both are kept by passing over the characters one after the other.
-/
import Criterion.Proofs.Bytes
import Criterion.Proofs.Pointing

namespace Criterion

set_option autoImplicit false

/-! ## Slices -/

/-- The text of the token is the slice of `source` from its start to its stop. -/
def Token.IsSlice (token : Token) (source : String) : Prop :=
  ∃ before behind : String, source = before ++ token.text ++ behind ∧
    token.start = ⟨before.utf8ByteSize, before.length⟩ ∧
    token.stop = ⟨(before ++ token.text).utf8ByteSize, (before ++ token.text).length⟩

namespace Token.Lies

variable {token a b : Token} {source : String}

theorem isSlice (h : token.Lies source.toList) : token.IsSlice source := by
  refine ⟨String.ofList (source.toList.take token.start.chars),
    String.ofList (source.toList.drop token.stop.chars), ?_, ?_, ?_⟩
  · rw [String.append_assoc, ← String.toList_inj]
    simp only [String.toList_append, String.toList_ofList]
    rw [← h.written, List.take_append_drop]
  · rw [← Offset.past_zero]
    exact h.start
  · rw [← String.ofList_toList (s := token.text), ← String.ofList_append, ← h.take_stop,
      ← Offset.past_zero]
    exact h.stop

theorem text_ne_empty (h : token.Lies source.toList) : token.text ≠ "" := by
  intro empty
  have long := h.long
  rw [h.stop_eq, empty] at long
  exact Nat.lt_irrefl _ long

/-- Where characters follow each other, so do bytes. -/
theorem bytes_le (ha : a.Lies source.toList) (hb : b.Lies source.toList)
    (le : a.stop.chars ≤ b.start.chars) : a.stop.bytes ≤ b.start.bytes := by
  rw [ha.stop, hb.start]
  exact Nat.add_le_add_left (byteLength_take_le _ le) 0

/-- A token that touches the one before sees no white space there. -/
theorem not_spacedBefore (ha : a.Lies source.toList) (hb : b.Lies source.toList)
    (touch : a.stop.chars = b.start.chars) : b.spacedBefore = false := by
  have some_char : a.text.toList ≠ [] := by
    rw [Ne, String.toList_eq_nil_iff]
    exact ha.text_ne_empty
  rw [hb.before, ← touch, ha.take_stop]
  exact Scan.not_blank_getLast? _ some_char ha.solid

/-- A token with a gap of white space before it sees that. -/
theorem spacedBefore_of_blank (h : token.Lies source.toList) {stop : Nat}
    (gap : stop < token.start.chars) (blank : BlankBetween source.toList stop token.start.chars) :
    token.spacedBefore = true := by
  have inside := h.inside
  have long := h.long
  rw [h.before, List.getLast?_eq_getElem?, List.length_take, Nat.min_eq_left (by omega),
    List.getElem?_take_of_lt (by omega)]
  cases here : source.toList[token.start.chars - 1]? with
  | none => rfl
  | some c => exact blank _ c (by omega) (by omega) here

end Token.Lies

/-! ## Scans -/

namespace Scan

variable {p : Punctuation} {source : String}

/-- The scan `s` of `source` has all of the text in it, up to the lexeme that stopped it if one did:
that lexeme begins at the first character behind the last token that is no white space. -/
structure Lossless (p : Punctuation) (source : String) (s : Scan) : Prop where
  slices : ∀ token ∈ s.tokens, token.IsSlice source
  solid : ∀ token ∈ s.tokens, token.text ≠ "" ∧ ∀ c ∈ token.text.toList, Text.isBlank c = false
  ordered : s.tokens.Pairwise fun a b =>
    a.stop.bytes ≤ b.start.bytes ∧ a.stop.chars ≤ b.start.chars
  first : ∀ token behind, s.tokens = token :: behind →
    BlankBetween source.toList 0 token.start.chars ∧ token.spacedBefore = true
  between : ∀ before a b behind, s.tokens = before ++ a :: b :: behind →
    BlankBetween source.toList a.stop.chars b.start.chars ∧
      (b.spacedBefore = true ↔ a.stop.chars < b.start.chars)
  ended : s.fault = none → BlankBetween source.toList s.stop source.toList.length
  stopped : ∀ cause, s.fault = some cause → ∃ before c rest, source.toList = before ++ c :: rest ∧
    s.stop ≤ before.length ∧ BlankBetween source.toList s.stop before.length ∧
    Lexeme.read p before.length c rest = .error cause ∧ Text.isBlank c = false ∧
    cause.lexeme <+: c :: rest ∧ cause.index = before.length + cause.inset

theorem spacedBefore_of_first {token : Token} {behind : List Token}
    (split : (ofText p source).tokens = token :: behind) : token.spacedBefore = true := by
  have mem : token ∈ (ofText p source).tokens := by simp [split]
  have lies := lies_of_mem_ofText mem
  by_cases zero : token.start.chars = 0
  · rw [lies.before, zero]
    rfl
  · exact lies.spacedBefore_of_blank (Nat.pos_of_ne_zero zero) (blank_before split)

theorem spacedBefore_iff_gap {before behind : List Token} {a b : Token}
    (split : (ofText p source).tokens = before ++ a :: b :: behind) :
    b.spacedBefore = true ↔ a.stop.chars < b.start.chars := by
  have mem_a : a ∈ (ofText p source).tokens := by simp [split]
  have mem_b : b ∈ (ofText p source).tokens := by simp [split]
  have lies_a := lies_of_mem_ofText mem_a
  have lies_b := lies_of_mem_ofText mem_b
  have le : a.stop.chars ≤ b.start.chars := by
    have ordered := pairwise_ofText p source
    rw [split, List.pairwise_append, List.pairwise_cons] at ordered
    exact ordered.2.1.1 b (.head _)
  constructor
  · intro spaced
    by_contra touch
    rw [lies_a.not_spacedBefore lies_b (by omega)] at spaced
    cases spaced
  · intro gap
    exact lies_b.spacedBefore_of_blank gap (blank_between split)

/-- The last token is passed. -/
theorem Reaches.stop_le {text : List Char} {s : Scan} {reached : Nat}
    (h : Reaches p 0 text s reached) : s.stop ≤ reached := by
  rcases List.eq_nil_or_concat s.tokens with none | ⟨before, a, split⟩
  · rw [stop_of_nil none]
    exact Nat.zero_le _
  · rw [List.concat_eq_append] at split
    have inside := h.inside a (by simp [split])
    rw [stop_of_split split]
    omega

/-- A scan has all of the text in it, whatever the text and whatever punctuation names may hold. -/
theorem lossless_ofText (p : Punctuation) (source : String) :
    (ofText p source).Lossless p source := by
  obtain ⟨reached, reaches⟩ := exists_reached p source
  constructor
  case slices =>
    intro token mem
    exact (lies_of_mem_ofText mem).isSlice
  case solid =>
    intro token mem
    have lies := lies_of_mem_ofText mem
    exact ⟨lies.text_ne_empty, lies.solid⟩
  case ordered =>
    refine (pairwise_ofText p source).imp_of_mem fun mem_a mem_b le => ⟨?_, le⟩
    exact (lies_of_mem_ofText mem_a).bytes_le (lies_of_mem_ofText mem_b) le
  case first =>
    intro token behind split
    exact ⟨blank_before split, spacedBefore_of_first split⟩
  case between =>
    intro before a b behind split
    exact ⟨blank_between split, spacedBefore_iff_gap split⟩
  case ended => exact blank_to_end
  case stopped =>
    intro cause found
    obtain ⟨before, c, rest, split, length, solid, read⟩ := reaches.stopped cause found
    rw [Nat.zero_add, ← length] at read
    have begins := Lexeme.begins_of_read read
    refine ⟨before, c, rest, split, ?_, ?_, read, solid, begins.isPrefix, begins.index_eq⟩
    · rw [length]
      exact reaches.stop_le
    · rw [length]
      exact reaches.blank_behind

/-- The name is behind five characters, which are eight bytes, and is at fault at its last. -/
example :
    let s := ofText .standard "é\u3000>= αβ."
    s.tokens.map (fun token => (token.start, token.stop)) =
        [(⟨0, 0⟩, ⟨2, 1⟩), (⟨5, 2⟩, ⟨7, 4⟩)] ∧
      s.fault = some (.openName "αβ." 7) := by
  decide +kernel

end Scan

end Criterion
