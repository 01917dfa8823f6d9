/-
# Criterion.Proofs.Spacing — only where there is white space matters

The words of a text are its longest runs without white space. How much white space separates them,
of which kind, and how much there is at either end makes no difference (`compile_of_words_eq`): texts
of the same words have the same tree, or the same diagnostic at places with equally many characters
that are not white space before them.

White space cuts a scan in two, so the scan of a text is put together from those of its words, each
of which is the same wherever its word stands. Counted in characters other than white space, it is
`Scan.ofWords` (`Scan.scanFrom_words`).
-/
import Criterion.Proofs.Places

namespace Criterion

set_option autoImplicit false

/-! ## Words -/

namespace Text

/-- The longest runs without white space, in their order. -/
def words (cs : List Char) : List (List Char) := (cs.splitOnP isBlank).filter fun w => w != []

/-- The characters other than white space. -/
def solid (cs : List Char) : Nat := cs.countP fun c => !isBlank c

/-- The characters other than white space before a place. -/
def solidBefore (cs : List Char) (i : Nat) : Nat := solid (cs.take i)

theorem words_append_blank (cs : List Char) {b : Char} (blank : isBlank b = true)
    (more : List Char) : words (cs ++ b :: more) = words cs ++ words more := by
  rw [words, List.splitOnP_append_cons _ _ blank, List.filter_append, words, words]

theorem words_solid {w : List Char} (solid : ∀ c ∈ w, isBlank c = false) :
    words w = if w = [] then [] else [w] := by
  rw [words, List.splitOnP_eq_singleton solid]
  cases w <;> rfl

theorem solid_append (cs ds : List Char) : solid (cs ++ ds) = solid cs + solid ds :=
  List.countP_append

theorem solid_cons_blank {b : Char} (blank : isBlank b = true) (cs : List Char) :
    solid (b :: cs) = solid cs :=
  List.countP_cons_of_neg (by simp [blank])

theorem solid_eq_length {w : List Char} (solid : ∀ c ∈ w, isBlank c = false) :
    Text.solid w = w.length :=
  List.countP_eq_length.2 fun c mem => by simp [solid c mem]

/-- A text is one word or none, or has white space behind its first word. -/
theorem words_induction {motive : List Char → Prop}
    (last : ∀ w, (∀ c ∈ w, isBlank c = false) → motive w)
    (next : ∀ w b more, (∀ c ∈ w, isBlank c = false) → isBlank b = true → motive more →
      motive (w ++ b :: more)) (cs : List Char) : motive cs := by
  suffices h : ∀ w, (∀ c ∈ w, isBlank c = false) → motive (w ++ cs) from h [] (by simp)
  induction cs with
  | nil =>
      intro w solid
      rw [List.append_nil]
      exact last w solid
  | cons c rest ih =>
      intro w solid
      by_cases blank : isBlank c = true
      · exact next w c rest solid blank (ih [] (by simp))
      · rw [List.append_cons]
        apply ih
        intro d mem
        rcases List.mem_append.1 mem with mem | mem
        · exact solid d mem
        · rw [List.mem_singleton.1 mem]
          exact Bool.eq_false_iff.2 blank

/-- White space apart, a text is its words. -/
theorem solid_eq_of_words (cs : List Char) : solid cs = (words cs).flatten.length := by
  induction cs using words_induction with
  | last w whole =>
      rw [solid_eq_length whole, words_solid whole]
      cases w <;> simp
  | next w b more whole blank ih =>
      rw [solid_append, solid_cons_blank blank, ih, words_append_blank w blank,
        solid_eq_length whole, words_solid whole, List.flatten_append, List.length_append]
      cases w <;> simp

end Text

/-! ## Scans of words -/

namespace Scan

/-- The scan of words behind `n` characters, where nothing else is counted. -/
def ofWords (p : Punctuation) : Nat → List (List Char) → Scan
  | _, [] => ⟨[], none⟩
  | n, w :: rest => ((scanFrom p ⟨0, n⟩ true 0 w).relocate id).append (ofWords p (n + w.length) rest)

theorem append_nil (s : Scan) : s.append ⟨[], none⟩ = s := by
  obtain ⟨tokens, fault⟩ := s
  cases fault <;> simp [append]

/-- One word, or none, before others. -/
theorem ofWords_append (p : Punctuation) (n : Nat) {w : List Char}
    (solid : ∀ c ∈ w, Text.isBlank c = false) (rest : List (List Char)) :
    ofWords p n (Text.words w ++ rest) =
      ((scanFrom p ⟨0, n⟩ true 0 w).relocate id).append (ofWords p (n + w.length) rest) := by
  rw [Text.words_solid solid]
  cases w with
  | nil => simp [scanFrom_nil, relocate, append]
  | cons c w => rfl

/-- Counted in characters other than white space, the scan of a text is that of its words. -/
theorem scanFrom_words (p : Punctuation) {f : Nat → Nat} {o : Offset} {n : Nat} {cs : List Char}
    (counts : ∀ k ≤ cs.length, f (o.chars + k) = n + Text.solidBefore cs k) :
    (scanFrom p o true 0 cs).relocate f = ofWords p n (Text.words cs) := by
  induction cs using Text.words_induction generalizing o n with
  | last w whole =>
      have same : Parallel f id o.chars (Offset.mk 0 n).chars w := by
        intro k le
        rw [counts k le, Text.solidBefore,
          Text.solid_eq_length fun c mem => whole c (List.mem_of_mem_take mem)]
        simp [le]
      have alone := ofWords_append p n whole []
      rw [List.append_nil, ofWords, append_nil] at alone
      rw [scanFrom_relocate p o ⟨0, n⟩ true w same, alone]
  | next w b more whole blank ih =>
      have first : Parallel f id o.chars (Offset.mk 0 n).chars w := by
        intro k le
        rw [counts k (by rw [List.length_append]; omega), Text.solidBefore,
          List.take_append_of_le_length le,
          Text.solid_eq_length fun c mem => whole c (List.mem_of_mem_take mem)]
        simp [le]
      have rest := ih (o := o.past (w ++ [b])) (n := n + w.length) fun k le => by
        have further := counts (w.length + 1 + k) (by simp; omega)
        have cut : (w ++ b :: more).take (w.length + 1 + k) = w ++ b :: more.take k := by
          rw [List.take_append, List.take_of_length_le (by omega),
            show w.length + 1 + k - w.length = k + 1 by omega, List.take_succ_cons]
        rw [Text.solidBefore, cut, Text.solid_append, Text.solid_cons_blank blank,
          Text.solid_eq_length whole] at further
        simpa [Offset.past, Text.solidBefore, Nat.add_assoc] using further
      rw [scanFrom_append_blank p blank, append_relocate, rest,
        scanFrom_relocate p o ⟨0, n⟩ true w first, Text.words_append_blank w blank,
        ofWords_append p n whole]

theorem ofText_words (p : Punctuation) (source : String) :
    (ofText p source).relocate (Text.solidBefore source.toList) =
      ofWords p 0 (Text.words source.toList) :=
  scanFrom_words p fun k _ => by simp [Offset.zero]

end Scan

/-! ## Texts of the same words -/

namespace Formula

section

variable {g : Grammar} {p : Punctuation} {source source' : String}

/-- Texts of the same words have the same tokens, but for their places. -/
theorem relocate_of_words_eq (p : Punctuation)
    (same : Text.words source.toList = Text.words source'.toList) :
    (Scan.ofText p source).relocate (Text.solidBefore source.toList) =
      (Scan.ofText p source').relocate (Text.solidBefore source'.toList) := by
  rw [Scan.ofText_words, Scan.ofText_words, same]

/-- What is wrong with a text, with places counted in characters other than white space. -/
theorem verdict_of_words_eq (g : Grammar) (p : Punctuation)
    (same : Text.words source.toList = Text.words source'.toList) :
    ((Context.start g).verdict source.toList.length (Scan.ofText p source).fault
        (Scan.ofText p source).tokens).map (Diagnostic.relocate (Text.solidBefore source.toList)) =
      ((Context.start g).verdict source'.toList.length (Scan.ofText p source').fault
        (Scan.ofText p source').tokens).map
          (Diagnostic.relocate (Text.solidBefore source'.toList)) := by
  have tokens := congrArg Scan.tokens (relocate_of_words_eq p same)
  have fault := congrArg Scan.fault (relocate_of_words_eq p same)
  have length : Text.solidBefore source.toList source.toList.length =
      Text.solidBefore source'.toList source'.toList.length := by
    simp only [Text.solidBefore, List.take_length, Text.solid_eq_of_words, same]
  simp only [Scan.relocate] at tokens fault
  rw [← Context.verdict_relocate, ← Context.verdict_relocate, tokens, fault, length]
  rfl

/-- Trees of texts of the same words are equal. -/
theorem root_of_words_eq {f f' : Formula}
    (same : Text.words source.toList = Text.words source'.toList)
    (compiled : compile g p source = .ok f) (compiled' : compile g p source' = .ok f') :
    f.root = f'.root := by
  have tokens := congrArg Scan.tokens (relocate_of_words_eq p same)
  have words : (Scan.ofText p source').tokens.map Token.word =
      (Scan.ofText p source).tokens.map Token.word := by
    have known := congrArg (List.map Token.word) tokens
    simp only [Scan.relocate, List.map_map] at known
    exact known.symm
  have layered := (layered_of_compile compiled).congr (Item.keys_congr rfl words)
  exact layered.eq_of_layered (layered_of_compile compiled')

end

/-- Two texts of the same words compile to the same tree, or are refused for the same reason with the
same words, at the same places, counted in characters other than white space. -/
theorem compile_of_words_eq (g : Grammar) (p : Punctuation) {source source' : String}
    (same : Text.words source.toList = Text.words source'.toList) :
    (∀ e, (∃ f, compile g p source = .ok f ∧ f.root = e) ↔
      ∃ f, compile g p source' = .ok f ∧ f.root = e) ∧
    ∀ d d', compile g p source = .error d → compile g p source' = .error d' →
      d.relocate (Text.solidBefore source.toList) =
        d'.relocate (Text.solidBefore source'.toList) ∧
      Text.solidBefore source.toList d.index = Text.solidBefore source'.toList d'.index ∧
      d.secondIndex.map (Text.solidBefore source.toList) =
        d'.secondIndex.map (Text.solidBefore source'.toList) := by
  have verdict := verdict_of_words_eq g p same
  constructor
  · have both : (∃ f, compile g p source = .ok f) ↔ ∃ f, compile g p source' = .ok f := by
      rw [exists_compile_eq_ok_iff, exists_compile_eq_ok_iff, ← Option.map_eq_none_iff, verdict,
        Option.map_eq_none_iff]
    intro e
    constructor
    · rintro ⟨f, compiled, rfl⟩
      obtain ⟨f', compiled'⟩ := both.1 ⟨f, compiled⟩
      exact ⟨f', compiled', (root_of_words_eq same compiled compiled').symm⟩
    · rintro ⟨f', compiled', rfl⟩
      obtain ⟨f, compiled⟩ := both.2 ⟨f', compiled'⟩
      exact ⟨f, compiled, root_of_words_eq same compiled compiled'⟩
  · intro d d' refused refused'
    rw [compile_eq_error_iff] at refused refused'
    rw [refused, refused'] at verdict
    have moved := Option.some.inj verdict
    have start (cs : List Char) : Text.solidBefore cs 0 = 0 := rfl
    refine ⟨moved, ?_, ?_⟩
    · rw [← Diagnostic.index_relocate (start _), moved, Diagnostic.index_relocate (start _)]
    · rw [← Diagnostic.secondIndex_relocate, moved, Diagnostic.secondIndex_relocate]

/-- A parenthesis that is never closed is the same one however the text is spaced. -/
theorem compile_of_words_eq_unclosed :
    Text.words " (a\t+ größe".toList = Text.words "(a\u3000\n+ größe ".toList ∧
      compile .arithmetic .standard " (a\t+ größe" = .error (.grammar (.unclosed 1)) ∧
      compile .arithmetic .standard "(a\u3000\n+ größe " = .error (.grammar (.unclosed 0)) ∧
      (Diagnostic.grammar (.unclosed 1)).relocate (Text.solidBefore " (a\t+ größe".toList) =
        (Diagnostic.grammar (.unclosed 0)).relocate
          (Text.solidBefore "(a\u3000\n+ größe ".toList) := by
  have same : Text.words " (a\t+ größe".toList = Text.words "(a\u3000\n+ größe ".toList := by
    decide +kernel
  have refused : compile .arithmetic .standard " (a\t+ größe" = .error (.grammar (.unclosed 1)) :=
    (compile_eq_error_iff _ _ _ _).2 (by decide +kernel)
  have refused' : compile .arithmetic .standard "(a\u3000\n+ größe " =
      .error (.grammar (.unclosed 0)) :=
    (compile_eq_error_iff _ _ _ _).2 (by decide +kernel)
  exact ⟨same, refused, refused',
    ((compile_of_words_eq .arithmetic .standard same).2 _ _ refused refused').1⟩

end Formula

end Criterion
