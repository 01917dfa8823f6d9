/-
# Criterion.Proofs.Reports — three lines that fit below each other

A report is the message, the text and a line of carets. That it has three lines and no more is up to
the message. The text is written on one line whatever is in it, and a caret stands in the columns
that the diagnostic names, in whatever order it names them, also if they are the same or lie behind
the end of the text (`Diagnostic.Underlines`).

A message is of fixed words, numbers and what is quoted from the text, so it breaks the line only if
that does (`GrammarFault.oneLine_message`). Compiling quotes lexemes, and there is no white space in
them (`Formula.solid_quoted`); hence all its messages are on one line.
-/
import Criterion.Diagnostic.Report
import Criterion.Proofs.Pointing

namespace Criterion

set_option autoImplicit false

/-! ## Carets -/

namespace Diagnostic

/-- There is a caret in a column exactly if the column is marked. -/
theorem getElem?_carets {marks : List Nat} (ascending : marks.Pairwise (· ≤ ·)) (column i : Nat) :
    (carets column marks)[i]? = some '^' ↔ column + i ∈ marks := by
  induction marks generalizing column i with
  | nil => simp [carets]
  | cons mark rest ih =>
      obtain ⟨least, ascending⟩ := List.pairwise_cons.1 ascending
      rw [carets]
      split
      · next ahead =>
        rw [List.getElem?_append, List.length_replicate]
        by_cases before : i < mark - column
        · have space : (List.replicate (mark - column) ' ')[i]? = some ' ' := by
            simp [before]
          have unmarked : column + i ∉ mark :: rest := by
            intro mem
            rcases List.mem_cons.1 mem with same | later
            · omega
            · have := least _ later
              omega
          simp [before, unmarked]
        · rw [if_neg before]
          by_cases here : column + i = mark
          · have first : i - (mark - column) = 0 := by omega
            simp [first, here]
          · obtain ⟨j, behind⟩ : ∃ j, i - (mark - column) = j + 1 :=
              ⟨column + i - mark - 1, by omega⟩
            have shifted : mark + 1 + j = column + i := by omega
            rw [behind, List.getElem?_cons_succ, ih ascending, shifted]
            simp [here]
      · next passed =>
        -- The column of this mark has its caret already.
        have apart : column + i ≠ mark := by omega
        rw [ih ascending]
        simp [apart]

/-- Between the carets are spaces. -/
theorem caret_or_space_of_mem {marks : List Nat} {column : Nat} {c : Char}
    (mem : c ∈ carets column marks) : c = '^' ∨ c = ' ' := by
  induction marks generalizing column with
  | nil => simp [carets] at mem
  | cons mark rest ih =>
      rw [carets] at mem
      split at mem
      · simp only [List.mem_append, List.mem_replicate, List.mem_cons] at mem
        rcases mem with ⟨_, space⟩ | caret | later
        · exact .inr space
        · exact .inl caret
        · exact ih later
      · exact ih mem

/-- Behind the last caret there is nothing. -/
theorem getLast?_carets (column : Nat) (marks : List Nat) :
    (carets column marks).getLast?.all (· = '^') = true := by
  induction marks generalizing column with
  | nil => rfl
  | cons mark rest ih =>
      rw [carets]
      split
      · have later := ih (mark + 1)
        rw [List.getLast?_append, List.getLast?_cons]
        cases last : (carets (mark + 1) rest).getLast? with
        | none => rfl
        | some c => simpa [last] using later
      · exact ih column

/-- A line with carets in the columns that the diagnostic names and in no others, spaces between them
and nothing behind the last. -/
structure Underlines (cs : List Char) (d : Diagnostic) : Prop where
  caret_iff : ∀ i, cs[i]? = some '^' ↔ i = d.index ∨ d.secondIndex = some i
  spaces : ∀ c ∈ cs, c = '^' ∨ c = ' '
  last : cs.getLast? = some '^'

theorem underlines_carets (d : Diagnostic) : Underlines (carets 0 d.marks) d := by
  have caret_iff (i : Nat) : (carets 0 d.marks)[i]? = some '^' ↔
      i = d.index ∨ d.secondIndex = some i := by
    rw [getElem?_carets d.marks_pairwise, Nat.zero_add, mem_marks]
  refine ⟨caret_iff, fun c => caret_or_space_of_mem, ?_⟩
  have some_caret : carets 0 d.marks ≠ [] := by
    intro none
    have caret := (caret_iff d.index).2 (.inl rfl)
    simp [none] at caret
  have ends := getLast?_carets 0 d.marks
  rw [List.getLast?_eq_some_getLast some_caret] at ends ⊢
  simpa using ends

end Diagnostic

/-! ## Messages -/

/-- A text without a line break. -/
def OneLine (s : String) : Prop := '\n' ∉ s.toList

instance : DecidablePred OneLine := fun s => inferInstanceAs (Decidable ('\n' ∉ s.toList))

@[simp] theorem oneLine_append {s t : String} : OneLine (s ++ t) ↔ OneLine s ∧ OneLine t := by
  simp only [OneLine, String.toList_append, List.mem_append, not_or]

@[simp] theorem oneLine_ofList {cs : List Char} : OneLine (String.ofList cs) ↔ '\n' ∉ cs := by
  rw [OneLine, String.toList_ofList]

/-- No digit is a line break. -/
@[simp] theorem oneLine_toString_nat (n : Nat) : OneLine (toString n) := by
  show OneLine n.repr
  rw [Nat.repr_eq_ofList_toDigits, oneLine_ofList]
  intro mem
  cases Nat.isDigit_of_mem_toDigits (by decide) (by decide) mem

@[simp] theorem oneLine_toString {s : String} : OneLine (toString s) ↔ OneLine s := Iff.rfl

/-- Fixed words are looked at letter by letter, so that their bytes need not be decoded. -/
theorem oneLine_of_eq {s : String} {cs : List Char} (written : s = String.ofList cs)
    (unbroken : cs.contains '\n' = false) : OneLine s := by
  rw [written, oneLine_ofList]
  simpa using unbroken

namespace LexicalFault

/-- What the message takes from the text. -/
def quoted (fault : LexicalFault) : String := String.ofList fault.lexeme

theorem oneLine_message {fault : LexicalFault} (h : OneLine fault.quoted) :
    OneLine fault.message := by
  cases fault with
  | halved c i | strange c i =>
      have letter : OneLine (toString c) := h
      delta message
      simp only [oneLine_append, oneLine_toString, oneLine_toString_nat, letter, and_true]
      and_intros <;> exact oneLine_of_eq rfl rfl
  | openName text i | mergedNumber text i | hugeNumber text i =>
      have word : OneLine text := oneLine_ofList.1 h
      delta message
      simp only [oneLine_append, oneLine_toString, oneLine_toString_nat, word, and_true]
      and_intros <;> exact oneLine_of_eq rfl rfl

end LexicalFault

namespace GrammarFault

/-- What the message takes from the text. -/
def quoted : GrammarFault → String
  | crampedBefore word _ | crampedAfter word _ | missingOperator word _ _ | openEnd word _
  | openStart word _ | foreignNumber word _ | foreignOperator word _ | unexpected word _ => word
  | missingOperand first _ second _ => first ++ second
  | empty | emptyParenthesis _ | unclosed _ | unmatched _ | tooLong .. | tooDeep .. => ""

theorem oneLine_message {fault : GrammarFault} (h : OneLine fault.quoted) :
    OneLine fault.message := by
  cases fault with
  | empty => exact oneLine_of_eq rfl rfl
  | _ =>
      delta message
      simp only [quoted, oneLine_append] at h
      simp only [oneLine_append, oneLine_toString, oneLine_toString_nat, h, and_true]
      and_intros <;> exact oneLine_of_eq rfl rfl

end GrammarFault

namespace Diagnostic

def quoted : Diagnostic → String
  | lexical fault => fault.quoted
  | grammar fault => fault.quoted

/-- A message breaks the line only where it quotes something that does. -/
theorem oneLine_message {d : Diagnostic} (h : OneLine d.quoted) : OneLine d.message := by
  cases d with
  | lexical fault => exact LexicalFault.oneLine_message h
  | grammar fault => exact GrammarFault.oneLine_message h

end Diagnostic

/-! ## Quotations -/

/-- A text without white space. -/
def Solid (s : String) : Prop := ∀ c ∈ s.toList, Text.isBlank c = false

theorem solid_empty : Solid "" := Text.solid_of_all rfl

theorem solid_append {s t : String} (first : Solid s) (second : Solid t) : Solid (s ++ t) := by
  intro c mem
  rw [String.toList_append, List.mem_append] at mem
  exact mem.elim (first c) (second c)

/-- A line break is white space. -/
theorem Solid.oneLine {s : String} (h : Solid s) : OneLine s := by
  intro mem
  have blank : Text.isBlank '\n' = true := by decide
  rw [h _ mem] at blank
  cases blank

theorem Role.solid_text (role : Role) : Solid role.text := by
  apply Text.solid_of_all
  cases role with
  | unary op => cases op <;> decide
  | binary op => cases op <;> decide
  | value | opening | closing => decide

namespace Lexeme

variable {p : Punctuation} {index : Nat} {c : Char} {rest : List Char} {cause : LexicalFault}

/-- A lexeme at fault is a character and a run of others behind it, none of them white space. -/
theorem run_of_read_error (h : read p index c rest = .error cause) :
    ∃ q : Char → Bool, (∀ d, Text.isBlank d = true → q d = false) ∧
      cause.lexeme = c :: rest.takeWhile q := by
  unfold read at h
  split at h
  · refine ⟨Char.isDigit, fun d => Text.isDigit_of_isBlank, ?_⟩
    simp only [readNumber] at h
    split at h
    · cases h
      exact String.toList_ofList
    · split at h <;> cases h
      exact String.toList_ofList
  · split at h
    · refine ⟨continuesName p, fun d => continuesName_of_isBlank p, ?_⟩
      simp only [readName_eq] at h
      split at h <;> cases h
      exact String.toList_ofList
    · split at h
      · cases h
      · split at h
        · cases h
        · split at h <;> cases h
          refine ⟨fun _ => false, fun _ _ => rfl, ?_⟩
          unfold LexicalFault.ofChar
          split <;> cases rest <;> rfl

theorem solid_of_read_error (solid : Text.isBlank c = false)
    (h : read p index c rest = .error cause) : Solid cause.quoted := by
  obtain ⟨q, apart, run⟩ := run_of_read_error h
  intro d mem
  rw [LexicalFault.quoted, String.toList_ofList, run] at mem
  rcases List.mem_cons.1 mem with rfl | behind
  · exact solid
  · exact Text.solid_of_mem_takeWhile apart behind

end Lexeme

theorem Scan.solid_of_fault {p : Punctuation} {source : String} {cause : LexicalFault}
    (h : (ofText p source).fault = some cause) : Solid cause.quoted := by
  obtain ⟨reached, reaches⟩ := exists_reached p source
  obtain ⟨before, c, rest, _, _, solid, read⟩ := reaches.stopped cause h
  exact Lexeme.solid_of_read_error solid read

namespace Item

variable {item : Item} {cause : GrammarFault}

theorem solid_of_crampedAfter (h : item.crampedAfter = some cause) : Solid cause.quoted := by
  unfold crampedAfter at h
  split at h <;> cases h
  exact item.role.solid_text

theorem solid_of_crampedBefore (h : item.crampedBefore = some cause) : Solid cause.quoted := by
  unfold crampedBefore at h
  split at h <;> cases h
  exact item.role.solid_text

variable (written : Solid item.token.text)

include written

theorem solid_of_foreign {g : Grammar} (h : item.foreign g = some cause) : Solid cause.quoted := by
  unfold foreign at h
  split at h
  · cases h
  · cases h
    exact written
  · split at h <;> cases h
    exact item.role.solid_text

theorem solid_of_misplaced {previous : Option Item} (h : item.misplaced previous = some cause) :
    Solid cause.quoted := by
  cases previous with
  | none =>
      simp only [misplaced] at h
      split at h <;> cases h
      exact item.role.solid_text
  | some before =>
      simp only [misplaced] at h
      split at h
      · cases h
        exact solid_empty
      · split at h
        · split at h <;> cases h
          · exact solid_append before.role.solid_text item.role.solid_text
          · exact written
        · cases h

end Item

namespace Context

variable {c : Context}

/-- What nests too deep or comes too late is not quoted. -/
theorem solid_of_misnested {item : Item} {cause : GrammarFault}
    (h : c.misnested item = some cause) : Solid cause.quoted := by
  unfold misnested at h
  split at h
  · cases h
    exact solid_empty
  · split at h <;> cases h
    exact solid_empty

theorem solid_of_overlong {item : Item} {cause : GrammarFault}
    (h : c.overlong item = some cause) : Solid cause.quoted := by
  unfold overlong at h
  split at h <;> cases h
  exact solid_empty

theorem solid_of_objection {token : Token} {cause : GrammarFault} (written : Solid token.text)
    (wrong : c.objection token = some cause) : Solid cause.quoted := by
  simp only [objection, unfit, Option.or_eq_some_iff, Option.bind_eq_some_iff] at wrong
  rcases wrong with ⟨last, _, cramped⟩ | ⟨_, foreign | ⟨_, cramped | ⟨_, nested | ⟨_, long |
    ⟨_, misplaced⟩⟩⟩⟩⟩
  · exact Item.solid_of_crampedAfter cramped
  · exact Item.solid_of_foreign written foreign
  · exact Item.solid_of_crampedBefore cramped
  · exact solid_of_misnested nested
  · exact solid_of_overlong long
  · exact Item.solid_of_misplaced written misplaced

theorem solid_of_unfinished {length : Nat} {cause : GrammarFault}
    (wrong : c.unfinished length = some cause) : Solid cause.quoted := by
  unfold unfinished at wrong
  split at wrong
  · cases wrong
    exact solid_empty
  · next last _ =>
    split at wrong
    · cases wrong
      exact last.role.solid_text
    · obtain ⟨enclosure, _, rfl⟩ := Option.map_eq_some_iff.1 wrong
      exact solid_empty

theorem solid_of_ending {p : Punctuation} {source : String} {d : Diagnostic} {length : Nat}
    (wrong : c.ending length (Scan.ofText p source).fault = some d) : Solid d.quoted := by
  simp only [ending, Option.or_eq_some_iff, Option.map_eq_some_iff, Option.bind_eq_some_iff]
    at wrong
  rcases wrong with ⟨_, ⟨last, _, cramped⟩, rfl⟩ | ⟨_, ⟨fault, stopped, rfl⟩ |
    ⟨_, _, unfinished, rfl⟩⟩
  · exact Item.solid_of_crampedAfter cramped
  · exact Scan.solid_of_fault stopped
  · exact solid_of_unfinished unfinished

end Context

/-- A text that does not compile is not quoted across its white space. -/
theorem Formula.solid_quoted {g : Grammar} {p : Punctuation} {source : String} {d : Diagnostic}
    (h : compile g p source = .error d) : Solid d.quoted := by
  have wrong := (compile_eq_error_iff g p source d).1 h
  rcases (Context.recalls_start g).verdict_cases wrong with
    ⟨c, passed, token, behind, cause, split, _, refused, rfl⟩ | ⟨c, _, ended⟩
  · have mem : token ∈ (Scan.ofText p source).tokens := by simp [split]
    exact Context.solid_of_objection (Scan.lies_of_mem_ofText mem).solid refused
  · exact Context.solid_of_ending ended

/-! ## Reports -/

namespace Diagnostic

/-- White space is written as spaces, so the text has no line break. -/
theorem newline_not_mem_line (source : List Char) : '\n' ∉ line source := by
  intro mem
  obtain ⟨c, _, written⟩ := List.mem_map.1 mem
  split at written
  · cases written
  · next solid =>
    subst written
    exact solid (by decide)

/-- A report has three lines: the message, if that is one; the text, with white space as spaces; and
carets below the columns that the diagnostic names. The message is one line if the diagnostic comes
from compiling a text. -/
theorem report_lines :
    (∀ (d : Diagnostic) (source : String), '\n' ∉ d.message.toList →
      ∃ underline, Underlines underline d ∧
        (d.report source).toList.splitOn '\n' =
          [d.message.toList,
            ' ' :: ' ' :: source.toList.map fun c => if Text.isBlank c then ' ' else c,
            ' ' :: ' ' :: underline]) ∧
    ∀ (g : Grammar) (p : Punctuation) (source : String) (d : Diagnostic),
      Formula.compile g p source = .error d → '\n' ∉ d.message.toList := by
  constructor
  · intro d source unbroken
    refine ⟨carets 0 d.marks, underlines_carets d, ?_⟩
    have joined : (d.report source).toList =
        ['\n'].intercalate [d.message.toList, ' ' :: ' ' :: line source.toList,
          ' ' :: ' ' :: carets 0 d.marks] := by
      simp [report]
    have caret_line : '\n' ∉ carets 0 d.marks := by
      intro mem
      rcases caret_or_space_of_mem mem with caret | space
      · cases caret
      · cases space
    rw [joined]
    apply List.splitOn_intercalate
    · simp [unbroken, newline_not_mem_line, caret_line]
    · simp
  · intro g p source d wrong
    exact oneLine_message (Formula.solid_quoted wrong).oneLine

/-- Of the places 7 and 1 the second has its caret first, and the other stands behind the end of the
text. -/
theorem report_lines_reversed :
    (∃ underline, Underlines underline (.grammar (.missingOperand "-" 7 "+" 1)) ∧
      ((grammar (.missingOperand "-" 7 "+" 1)).report "x\n\ty").toList.splitOn '\n' =
        [(grammar (.missingOperand "-" 7 "+" 1)).message.toList, "  x  y".toList,
          ' ' :: ' ' :: underline]) ∧
    Formula.compile .boolean .standard "true\tfalse" =
      .error (.grammar (.missingOperator "false" 5 0)) ∧
    '\n' ∉ (grammar (.missingOperator "false" 5 0)).message.toList := by
  have wrong : Formula.compile .boolean .standard "true\tfalse" =
      .error (.grammar (.missingOperator "false" 5 0)) :=
    (Formula.compile_eq_error_iff _ _ _ _).2 (by decide +kernel)
  have unbroken : OneLine (grammar (.missingOperand "-" 7 "+" 1)).message :=
    oneLine_message (d := grammar (.missingOperand "-" 7 "+" 1)) (by decide)
  exact ⟨report_lines.1 _ _ unbroken, wrong, report_lines.2 _ _ _ _ wrong⟩

end Diagnostic

end Criterion
