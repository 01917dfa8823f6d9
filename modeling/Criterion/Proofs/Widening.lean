/-
# Criterion.Proofs.Widening — more punctuation in names

With more punctuation a name may go on where it ended before, and `-` may become part of a name
where it was an operator or a sign. None of this can happen in a text that compiles, as no mark stands
directly behind a name there: any but `-` starts no token (`Scan.hyphen_of_mark`), and a `-` makes a
token that must not touch the name (`Context.objection_of_hyphen`). So what compiles with less
punctuation compiles to the same with more. The way back needs only that no name uses the marks that
are left out, and the names of a text are those of its tree (`Formula.names_of_compile`).
-/
import Criterion.Proofs.InOrder
import Criterion.Proofs.Spelling

namespace Criterion

set_option autoImplicit false

/-! ## Marks and letters -/

namespace Punctuation

instance : HasSubset Punctuation := ⟨fun p q => ∀ c, p.contains c = true → q.contains c = true⟩

/-- The marks of either choice. -/
def union (p q : Punctuation) : Punctuation := ofList (p.marks ++ q.marks)

theorem contains_union (p q : Punctuation) (c : Char) :
    (p.union q).contains c = (p.contains c || q.contains c) := by
  rw [union, contains_ofList, Bool.eq_iff_iff]
  simp only [Bool.and_eq_true, Bool.or_eq_true, contains, List.contains_iff_mem, List.mem_append]
  constructor
  · exact And.right
  · intro mem
    exact ⟨mem.elim (p.admissible c) (q.admissible c), mem⟩

theorem subset_union_left (p q : Punctuation) : p ⊆ p.union q := by
  intro c mem
  rw [contains_union, mem, Bool.true_or]

theorem subset_union_right (p q : Punctuation) : q ⊆ p.union q := by
  intro c mem
  rw [contains_union, mem, Bool.or_true]

end Punctuation

namespace Lexeme

/-- A mark goes on with a name exactly where it is chosen. -/
theorem contains_of_continuesName {p : Punctuation} {c : Char}
    (mark : Punctuation.isAdmissible c = true) (goes_on : continuesName p c = true) :
    p.contains c = true := by
  obtain ⟨letter, number, line⟩ := not_letter_of_isAdmissible mark
  simpa [continuesName, letter, number, line] using goes_on

theorem startsName_of_isAdmissible {c : Char} (mark : Punctuation.isAdmissible c = true) :
    startsName c = false := by
  obtain ⟨letter, _, line⟩ := not_letter_of_isAdmissible mark
  simp [startsName, letter, line]

/-- What is no mark goes on with a name whatever the punctuation, or with none. -/
theorem continuesName_of_plain {p q : Punctuation} {c : Char}
    (plain : Punctuation.isAdmissible c = false) : continuesName q c = continuesName p c := by
  have never (r : Punctuation) : r.contains c = false := r.contains_eq_false plain
  simp [continuesName, never]

theorem continuesName_mono {p q : Punctuation} (wider : p ⊆ q) {c : Char}
    (goes_on : continuesName p c = true) : continuesName q c = true := by
  simp only [continuesName, Bool.or_eq_true] at goes_on ⊢
  rcases goes_on with letter | mark
  · exact .inl letter
  · exact .inr (wider c mark)

/-- Only the end of a name depends on the punctuation, so where names end alike lexemes are read
alike. -/
theorem read_of_same_run {p q : Punctuation} {index : Nat} {c : Char} {rest : List Char}
    {l : Lexeme} (h : read p index c rest = .ok l)
    (same : startsName c = true →
      rest.takeWhile (continuesName q) = rest.takeWhile (continuesName p)) :
    read q index c rest = .ok l := by
  unfold read at h ⊢
  split
  · next number => rwa [if_pos number] at h
  · next number =>
      rw [if_neg number] at h
      split
      · next name =>
          rw [if_pos name] at h
          simp only [readName_eq, same name] at h ⊢
          split at h
          · cases h
          · next closed =>
              rw [if_neg ?_]
              · exact h
              · -- The last character is no letter if it is a mark of `q`, so it is one of `p`.
                intro mark
                obtain ⟨d, last, chosen⟩ := (Option.any_eq_true ..).1 mark
                have run := List.all_eq_true.1 List.all_takeWhile d (List.mem_of_getLast? last)
                have known := contains_of_continuesName (Punctuation.isAdmissible_of_contains chosen)
                  run
                exact closed ((Option.any_eq_true ..).2 ⟨d, last, known⟩)
      · next name => rwa [if_neg name] at h

end Lexeme

/-! ## Marks behind a name -/

namespace Scan

/-- A mark behind a token is a `-` if it is at no fault, and the start of a number or an operator. -/
theorem hyphen_of_mark {p : Punctuation} {o : Offset} {d : Char} {rest : List Char}
    (mark : Punctuation.isAdmissible d = true)
    (readable : (scanFrom p o false 0 (d :: rest)).fault = none) :
    ∃ token more, (scanFrom p o false 0 (d :: rest)).tokens = token :: more ∧
      token.spacedBefore = false ∧ ((∃ n, token.word = .number n) ∨ token.word = .sign .minus) := by
  have solid : Text.isBlank d = false := by
    cases blank : Text.isBlank d with
    | false => rfl
    | true =>
        have none := (Punctuation.ofList [d]).contains_of_isBlank blank
        simp [Punctuation.contains_ofList, mark] at none
  have name := Lexeme.startsName_of_isAdmissible mark
  cases read : Lexeme.read p o.chars d rest with
  | error cause => simp [scanFrom_fault p o false solid read] at readable
  | ok l =>
      rw [scanFrom_lexeme p o false solid read]
      refine ⟨_, _, rfl, rfl, ?_⟩
      simp only [place]
      unfold Lexeme.read at read
      split at read
      · simp only [Lexeme.readNumber] at read
        split at read
        · cases read
        · split at read <;> cases read
          exact .inl ⟨_, rfl⟩
      · rw [name] at read
        have known := (Punctuation.isAdmissible_iff d).1 mark
        simp only [List.mem_cons, List.not_mem_nil, or_false] at known
        rcases known with rfl | rfl | rfl | rfl | rfl | rfl | rfl <;>
          simp [Sign.leading?] at read
        cases read
        exact .inr rfl

end Scan

/-- A number or a `-` must not touch the operand before it. -/
theorem Context.objection_of_hyphen {c : Context} {before : Item} {token : Token}
    (last : c.previous = some before) (operand : before.role = .value)
    (touches : token.spacedBefore = false)
    (hyphen : (∃ n, token.word = .number n) ∨ token.word = .sign .minus) :
    c.objection token ≠ none := by
  intro clear
  obtain ⟨_, fit⟩ := Option.or_eq_none_iff.1 clear
  obtain ⟨_, fit⟩ := Option.or_eq_none_iff.1 fit
  obtain ⟨cramped, fit⟩ := Option.or_eq_none_iff.1 fit
  obtain ⟨_, fit⟩ := Option.or_eq_none_iff.1 fit
  obtain ⟨_, placed⟩ := Option.or_eq_none_iff.1 fit
  rcases hyphen with ⟨n, word⟩ | word
  · rw [Item.misplaced_eq_none_iff, last] at placed
    simp [item, word, operand, Role.ofWord, Role.needsRight, Role.needsLeft] at placed
  · have role : (c.item token).role = .binary .subtract := by
      simp [item, word, last, operand, Role.ofWord, Role.ofSign, Role.needsRight]
    have spaced := (c.item token).crampedBefore_eq_none_iff.1 cramped _ role
    change token.spacedBefore = true at spaced
    rw [touches] at spaced
    cases spaced

namespace Lexeme

/-- The two names that are truth values are made of letters. -/
theorem isAlphabetic_of_wordOfName {name : List Char} {b : Bool} (h : wordOfName name = .bool b) :
    ∀ c ∈ name, Text.isAlphabetic c = true := by
  have letters : ("true".toList ++ "false".toList).all Text.isAlphabetic = true := by decide
  intro c mem
  apply List.all_eq_true.1 letters c
  unfold wordOfName at h
  split at h
  · next eq => exact List.mem_append_left _ (eq ▸ mem)
  · split at h
    · next eq => exact List.mem_append_right _ (eq ▸ mem)
    · cases h

/-- A name goes on alike with less punctuation if that has all of its marks. -/
theorem continuesName_of_wordOfName {p q : Punctuation} {name : List Char}
    (chosen : ∀ n, wordOfName name = .name n →
      ∀ c ∈ n.toList, Punctuation.isAdmissible c = true → p.contains c = true)
    {c : Char} (mem : c ∈ name) (goes_on : continuesName q c = true) :
    continuesName p c = true := by
  cases mark : Punctuation.isAdmissible c with
  | false => exact (continuesName_of_plain mark).trans goes_on
  | true =>
      rcases wordOfName_cases name with ⟨b, word⟩ | word
      · have letter := isAlphabetic_of_wordOfName word c mem
        rw [(not_letter_of_isAdmissible mark).1] at letter
        cases letter
      · have known := chosen _ word c (by rwa [String.toList_ofList]) mark
        rw [continuesName, known, Bool.or_true]

end Lexeme

/-! ## Scans with more punctuation -/

namespace Scan

section

variable {p q : Punctuation}

/-- The marks in the name of a token are chosen. -/
theorem contains_of_mem_name (o : Offset) (spaced : Bool) (cs : List Char) :
    ∀ token ∈ (scanFrom p o spaced 0 cs).tokens, ∀ name, token.word = .name name →
      ∀ c ∈ name.toList, Punctuation.isAdmissible c = true → p.contains c = true := by
  refine forall_mem_scanFrom o spaced cs fun o' spaced' c l behind _ _ read name word d => ?_
  have starts := Lexeme.startsName_of_read read word
  obtain ⟨_, run⟩ := Lexeme.word_of_read read starts
  rw [Lexeme.name_of_read read word]
  intro inside mark
  rcases List.mem_cons.1 inside with rfl | inside
  · rw [Lexeme.startsName_of_isAdmissible mark] at starts
    cases starts
  · rw [run] at inside
    exact Lexeme.contains_of_continuesName mark (List.all_eq_true.1 List.all_takeWhile d inside)

/-- Behind a name of a text that compiles no mark goes on with it. -/
theorem not_mark_of_clear {c : Context} {o : Offset} {l : Lexeme} {name behind : List Char}
    {spaced : Bool} {d : Char} {length : Nat} (word : l.word = Lexeme.wordOfName name)
    (clear : (c.advance (place o spaced d l behind)).verdict length
      (scanFrom p (o.past (d :: l.tail)) false 0 behind).fault
      (scanFrom p (o.past (d :: l.tail)) false 0 behind).tokens = none) {next : Char}
    (head : behind.head? = some next) : Punctuation.isAdmissible next = false := by
  obtain ⟨rest, rfl⟩ := List.head?_eq_some_iff.1 head
  cases mark : Punctuation.isAdmissible next with
  | false => rfl
  | true =>
      have readable : (scanFrom p (o.past (d :: l.tail)) false 0 (next :: rest)).fault = none :=
        Context.readable_of_verdict clear
      obtain ⟨token, more, tokens, touches, hyphen⟩ := hyphen_of_mark mark readable
      rw [tokens, Context.verdict] at clear
      split at clear
      · cases clear
      · next objection =>
          refine absurd objection (Context.objection_of_hyphen rfl ?_ touches hyphen)
          simp only [Context.item, place, word, Role.ofWord_wordOfName]

/-- A text that compiles with some punctuation is scanned alike with more. -/
theorem scanFrom_widen (wider : p ⊆ q) (length : Nat) (o : Offset) (spaced : Bool)
    (cs : List Char) {c : Context}
    (clear : c.verdict length (scanFrom p o spaced 0 cs).fault (scanFrom p o spaced 0 cs).tokens =
      none) : scanFrom q o spaced 0 cs = scanFrom p o spaced 0 cs := by
  induction o, spaced, cs using scan_induction (p := p) generalizing c with
  | nil o spaced => rw [scanFrom_nil, scanFrom_nil]
  | blank o spaced d rest white ih =>
      rw [scanFrom_blank p o spaced white] at clear ⊢
      rw [scanFrom_blank q o spaced white]
      exact ih clear
  | fault o spaced d rest cause solid read =>
      rw [scanFrom_fault p o spaced solid read] at clear
      cases Context.readable_of_verdict clear
  | lexeme o spaced d l behind solid read ih =>
      rw [scanFrom_lexeme_append spaced solid read] at clear ⊢
      change c.verdict length (scanFrom p _ false 0 behind).fault (_ :: _) = none at clear
      rw [Context.verdict] at clear
      split at clear
      · cases clear
      · have read' : Lexeme.read q o.chars d (l.tail ++ behind) = .ok l := by
          apply Lexeme.read_of_same_run read
          intro name
          obtain ⟨word, run⟩ := Lexeme.word_of_read read name
          obtain ⟨inside, ends⟩ := Lexeme.takeWhile_append_eq_left_iff.1 run.symm
          rw [← run]
          refine Lexeme.takeWhile_append_eq_left_iff.2
            ⟨fun e mem => Lexeme.continuesName_mono wider (inside e mem), fun next head => ?_⟩
          have plain := not_mark_of_clear word clear head
          exact (Lexeme.continuesName_of_plain plain).trans (ends next head)
        rw [scanFrom_lexeme_append spaced solid read', ih clear]

/-- A text whose names use none of the marks that are left out is scanned alike without them. -/
theorem scanFrom_narrow (wider : p ⊆ q) (o : Offset) (spaced : Bool) (cs : List Char)
    (readable : (scanFrom q o spaced 0 cs).fault = none)
    (chosen : ∀ token ∈ (scanFrom q o spaced 0 cs).tokens, ∀ name, token.word = .name name →
      ∀ c ∈ name.toList, Punctuation.isAdmissible c = true → p.contains c = true) :
    scanFrom p o spaced 0 cs = scanFrom q o spaced 0 cs := by
  induction o, spaced, cs using scan_induction (p := q) with
  | nil o spaced => rw [scanFrom_nil, scanFrom_nil]
  | blank o spaced d rest white ih =>
      rw [scanFrom_blank q o spaced white] at readable chosen ⊢
      rw [scanFrom_blank p o spaced white]
      exact ih readable chosen
  | fault o spaced d rest cause solid read =>
      rw [scanFrom_fault q o spaced solid read] at readable
      cases readable
  | lexeme o spaced d l behind solid read ih =>
      rw [scanFrom_lexeme_append spaced solid read] at readable chosen ⊢
      have read' : Lexeme.read p o.chars d (l.tail ++ behind) = .ok l := by
        apply Lexeme.read_of_same_run read
        intro name
        obtain ⟨word, run⟩ := Lexeme.word_of_read read name
        obtain ⟨inside, ends⟩ := Lexeme.takeWhile_append_eq_left_iff.1 run.symm
        rw [← run]
        refine Lexeme.takeWhile_append_eq_left_iff.2 ⟨fun e mem => ?_, fun next head => ?_⟩
        · refine Lexeme.continuesName_of_wordOfName (fun n named => ?_) (.tail d mem)
            (inside e mem)
          exact chosen _ (.head _) n (word.trans named)
        · have stops := ends next head
          cases goes_on : Lexeme.continuesName p next with
          | false => rfl
          | true =>
              rw [Lexeme.continuesName_mono wider goes_on] at stops
              cases stops
      rw [scanFrom_lexeme_append spaced solid read',
        ih readable fun token mem => chosen token (.tail _ mem)]

end

end Scan

/-! ## The names of a tree -/

/-- The names of the tree use no marks but these. -/
def Expr.Within (p : Punctuation) (e : Expr) : Prop :=
  ∀ name ∈ e.names, ∀ c ∈ name.toList, Punctuation.isAdmissible c = true → p.contains c = true

namespace Formula

section

variable {g : Grammar} {p q : Punctuation} {source : String} {f : Formula}

theorem within_of_compile (h : compile g p source = .ok f) : f.root.Within p := by
  intro name mem
  rw [names_of_compile h, List.mem_filterMap] at mem
  obtain ⟨token, inside, named⟩ := mem
  exact Scan.contains_of_mem_name .zero true source.toList token inside name
    (Word.name?_eq_some_iff.1 named)

/-- A formula is known by its tokens. -/
theorem compile_congr (same : Scan.ofText p source = Scan.ofText q source) :
    compile g p source = compile g q source := by
  rw [compile, compile, parse, parse, Admission.start, Admission.start, same]

theorem compile_of_subset (wider : p ⊆ q) (h : compile g p source = .ok f) :
    compile g q source = .ok f := by
  have same := Scan.scanFrom_widen wider source.toList.length .zero true source.toList
    (verdict_of_compile h)
  exact (compile_congr same).trans h

theorem compile_of_within (wider : p ⊆ q) (h : compile g q source = .ok f)
    (within : f.root.Within p) : compile g p source = .ok f := by
  have readable := readable_of_compile h
  have same : Scan.ofText p source = Scan.ofText q source := by
    refine Scan.scanFrom_narrow wider .zero true source.toList readable ?_
    intro token mem name word
    refine within name ?_
    rw [names_of_compile h]
    exact List.mem_filterMap.2 ⟨token, mem, Word.name?_eq_some_iff.2 word⟩
  exact (compile_congr same).trans h

end

/-- With less punctuation compile the texts that compile with more and whose names do without what
is left out, to the same formula; so more punctuation changes no formula, and no two choices of it
make two formulas of a text. -/
theorem compile_punctuation (g : Grammar) (source : String) :
    (∀ p q : Punctuation, p ⊆ q → ∀ f, compile g p source = .ok f ↔
      compile g q source = .ok f ∧ f.root.Within p) ∧
    (∀ p q : Punctuation, p ⊆ q → ∀ f, compile g p source = .ok f →
      compile g q source = .ok f) ∧
    ∀ p q f f', compile g p source = .ok f → compile g q source = .ok f' → f = f' := by
  refine ⟨fun p q wider f => ⟨fun h => ?_, fun ⟨h, within⟩ => ?_⟩, fun p q wider f h => ?_, ?_⟩
  · exact ⟨compile_of_subset wider h, within_of_compile h⟩
  · exact compile_of_within wider h within
  · exact compile_of_subset wider h
  · intro p q f f' h h'
    have left := compile_of_subset (p.subset_union_left q) h
    have right := compile_of_subset (p.subset_union_right q) h'
    exact Except.ok.inj (left.symm.trans right)

/-- A text with an operator `-` and a name with a dot: the dot is all the punctuation it needs. -/
theorem compile_punctuation_dot :
    Punctuation.ofList ['.'] ⊆ .standard ∧
    ∃ f, compile .arithmetic (.ofList ['.']) "a - b.c" = .ok f ∧
      compile .arithmetic .standard "a - b.c" = .ok f ∧ f.root.Within (.ofList ['.']) := by
  have wider : Punctuation.ofList ['.'] ⊆ .standard := by
    intro c mem
    simp only [Punctuation.contains_ofList, List.contains_iff_mem, List.mem_singleton,
      Bool.and_eq_true] at mem
    rw [mem.2]
    decide
  have compiled : compile .arithmetic (.ofList ['.']) "a - b.c" =
      .ok ⟨"a - b.c", .binary .subtract (.var "a") (.var "b.c")⟩ :=
    eq_ok_of_toOption (by decide +kernel)
  obtain ⟨by_marks, widen, unique⟩ := compile_punctuation .arithmetic "a - b.c"
  have wide := widen _ _ wider _ compiled
  have both := (by_marks _ _ wider _).1 compiled
  cases unique _ _ _ _ compiled wide
  exact ⟨wider, _, compiled, both⟩

end Formula

end Criterion
