/-
# Criterion.Proofs.Seams — texts joined by white space

A scan starts afresh behind white space. What it finds in the second of two texts that white space
separates is what it finds in that text alone, at places that count what is before it
(`Scan.shift`); and what it finds in the first does not depend on the second at all.

* `scanFrom_shift`: a text is scanned alike behind any other, only at later places.
* `ofText_seam`: the scan of the joined texts is the scan of the first and, unless that ends in a
  fault, the scan of the second behind it.
-/
import Criterion.Proofs.Bytes
import Criterion.Proofs.Places

namespace Criterion

set_option autoImplicit false

/-! ## Later places -/

/-- The same place where text of this size has been put in front. -/
def Offset.shift (size o : Offset) : Offset := ⟨size.bytes + o.bytes, size.chars + o.chars⟩

def LexicalFault.shift (size : Offset) (fault : LexicalFault) : LexicalFault :=
  fault.relocate (size.chars + ·)

def Token.shift (size : Offset) (token : Token) : Token :=
  { token with start := size.shift token.start, stop := size.shift token.stop }

/-- The same tokens and the same fault at later places. -/
def Scan.shift (size : Offset) (s : Scan) : Scan :=
  ⟨s.tokens.map (Token.shift size), s.fault.map (LexicalFault.shift size)⟩

variable (size : Offset)

theorem Offset.shift_past (o : Offset) (cs : List Char) :
    size.shift (o.past cs) = (size.shift o).past cs := by
  simp only [shift, past, Nat.add_assoc]

theorem Offset.shift_zero : size.shift .zero = size := rfl

namespace Scan

theorem cons_shift (token : Token) (s : Scan) :
    (s.cons token).shift size = (s.shift size).cons (token.shift size) := rfl

theorem place_shift (o : Offset) (spaced : Bool) (c : Char) (l : Lexeme) (behind : List Char) :
    (place o spaced c l behind).shift size = place (size.shift o) spaced c l behind := by
  simp only [place, Token.shift, Offset.shift_past]

end Scan

/-- Where a lexeme is at fault moves with it. -/
theorem Lexeme.read_shift {p : Punctuation} {index : Nat} {c : Char} {rest : List Char}
    {cause : LexicalFault} (h : read p index c rest = .error cause) :
    read p (size.chars + index) c rest = .error (cause.shift size) := by
  rw [read_eq_relocate] at h ⊢
  cases first : read p 0 c rest with
  | ok l =>
      rw [first] at h
      cases h
  | error fault =>
      rw [first] at h
      cases h
      have counted : (size.chars + index + ·) = (size.chars + ·) ∘ (index + ·) := by
        funext i
        exact Nat.add_assoc _ _ _
      show Except.error _ = Except.error _
      rw [LexicalFault.shift, LexicalFault.relocate_relocate, counted]

namespace Scan

variable {p : Punctuation}

/-- A text is scanned alike behind any other, only at later places. -/
theorem scanFrom_shift (o : Offset) (spaced : Bool) (cs : List Char) :
    scanFrom p (size.shift o) spaced 0 cs = (scanFrom p o spaced 0 cs).shift size := by
  induction o, spaced, cs using scan_induction (p := p) with
  | nil o spaced =>
      rw [scanFrom_nil, scanFrom_nil]
      rfl
  | blank o spaced c rest white ih =>
      rw [scanFrom_blank p _ spaced white, scanFrom_blank p o spaced white, ← ih,
        Offset.shift_past]
  | fault o spaced c rest cause solid read =>
      rw [scanFrom_fault p _ spaced solid (Lexeme.read_shift size read),
        scanFrom_fault p o spaced solid read]
      rfl
  | lexeme o spaced c l behind solid read ih =>
      have later := Lexeme.read_anywhere read (size.shift o).chars
      rw [scanFrom_lexeme_append spaced solid later, scanFrom_lexeme_append spaced solid read,
        cons_shift, ← ih, Offset.shift_past, place_shift]

/-- White space behind white space is passed over. -/
theorem scanFrom_blanks {blanks : List Char} (blank : ∀ c ∈ blanks, Text.isBlank c = true)
    (o : Offset) (cs : List Char) :
    scanFrom p o true 0 (blanks ++ cs) = scanFrom p (o.past blanks) true 0 cs := by
  induction blanks generalizing o with
  | nil => rfl
  | cons b rest ih =>
      obtain ⟨first, others⟩ := List.forall_mem_cons.1 blank
      rw [List.cons_append, scanFrom_blank p o true first, ih others, ← Offset.past_append]
      rfl

/-! ## The seam -/

/-- The scan of two texts with white space between them, said of the scans of each. -/
theorem ofText_append_blanks {first blanks second : String} (some_blank : blanks ≠ "")
    (blank : ∀ c ∈ blanks.toList, Text.isBlank c = true) :
    ofText p (first ++ blanks ++ second) =
      (ofText p first).append ((ofText p second).shift
        ⟨(first ++ blanks).utf8ByteSize, (first ++ blanks).length⟩) := by
  obtain ⟨b, more, split⟩ : ∃ b more, blanks.toList = b :: more := by
    apply List.exists_cons_of_ne_nil
    rwa [Ne, String.toList_eq_nil_iff]
  rw [split, List.forall_mem_cons] at blank
  have text : (first ++ blanks ++ second).toList =
      first.toList ++ b :: (more ++ second.toList) := by
    rw [String.toList_append, String.toList_append, split, List.append_assoc, List.cons_append]
  have before : Offset.zero.past (first.toList ++ b :: more) =
      ⟨(first ++ blanks).utf8ByteSize, (first ++ blanks).length⟩ := by
    rw [← split, ← String.toList_append, Offset.past_zero, String.ofList_toList]
  have place : (Offset.zero.past (first.toList ++ [b])).past more =
      Offset.shift ⟨(first ++ blanks).utf8ByteSize, (first ++ blanks).length⟩ .zero := by
    rw [Offset.shift_zero, ← before, ← Offset.past_append, List.append_assoc,
      List.singleton_append]
  rw [ofText, text, scanFrom_append_blank p blank.1, scanFrom_blanks blank.2, place,
    scanFrom_shift]
  rfl

/-- White space cuts a scan in two: behind a text without fault the tokens and the fault of what
follows are those it has alone, moved by what is before it; behind a fault nothing follows. -/
theorem ofText_seam (p : Punctuation) (first blanks second : String) (some_blank : blanks ≠ "")
    (blank : ∀ c ∈ blanks.toList, Text.isBlank c = true) :
    let size : Offset := ⟨(first ++ blanks).utf8ByteSize, (first ++ blanks).length⟩
    ((ofText p first).fault = none →
      (ofText p (first ++ blanks ++ second)).tokens =
          (ofText p first).tokens ++ (ofText p second).tokens.map (Token.shift size) ∧
        (ofText p (first ++ blanks ++ second)).fault =
          (ofText p second).fault.map (LexicalFault.shift size)) ∧
    (∀ cause, (ofText p first).fault = some cause →
      ofText p (first ++ blanks ++ second) = ofText p first) := by
  intro size
  have joined : ofText p (first ++ blanks ++ second) =
      (ofText p first).append ((ofText p second).shift size) :=
    ofText_append_blanks some_blank blank
  constructor
  · intro readable
    rw [joined, append_of_readable readable]
    exact ⟨rfl, rfl⟩
  · intro cause found
    rw [joined, append_of_fault found]

/-- The number at fault is at 6, and at 2 in its own text; the name at fault hides what is behind. -/
theorem ofText_seam_merged :
    (ofText .standard ("é +" ++ "\u3000" ++ "x 1a")).tokens =
        (ofText .standard "é +").tokens ++
          (ofText .standard "x 1a").tokens.map (Token.shift ⟨7, 4⟩) ∧
      (ofText .standard ("é +" ++ "\u3000" ++ "x 1a")).fault = some (.mergedNumber "1" 6) ∧
      ofText .standard ("t-" ++ "\t " ++ "&") = ofText .standard "t-" := by
  have joined := ofText_seam .standard "é +" "\u3000" "x 1a" (by decide)
    (List.all_eq_true.1 (by decide))
  have hidden := ofText_seam .standard "t-" "\t " "&" (by decide) (List.all_eq_true.1 (by decide))
  have size : (⟨("é +" ++ "\u3000").utf8ByteSize, ("é +" ++ "\u3000").length⟩ : Offset) = ⟨7, 4⟩ := by
    decide +kernel
  obtain ⟨tokens, fault⟩ := joined.1 (by decide +kernel)
  rw [size] at tokens fault
  refine ⟨tokens, fault.trans (by decide +kernel), ?_⟩
  exact hidden.2 (.openName "t-" 1) (by decide +kernel)

end Scan

end Criterion
