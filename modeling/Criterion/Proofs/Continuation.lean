/-
# Criterion.Proofs.Continuation — more text behind white space

Three faults are those of a text that ends too early. Every other fault is there to stay: the text is
refused for it whatever follows behind white space (`verdict_append`), because the scan of what is
before the white space is the same and each check sees what it saw.

The three are no dead ends either. A text that has come to its end without another fault stands in
some `Context`, in which an operand may be due and parentheses may be open. A truth value and as many
closing parentheses complete it (`verdict_completion`): behind an operand no token is deeper than the
place before it, so only the number of operators can stand in the way.
-/
import Criterion.Proofs.Spelling

namespace Criterion

set_option autoImplicit false

/-- Whether the text could go on: the fault is that it ends. -/
def Diagnostic.isOpen : Diagnostic → Bool
  | .grammar .empty | .grammar (.openEnd _ _) | .grammar (.unclosed _) => true
  | _ => false

/-- What completes a text: the operand that is due, and a closing parenthesis for each open one. -/
def Stance.completion (st : Stance) : List Word :=
  (if st.due then [.bool true] else []) ++ List.replicate st.opened .closeParen

/-! ## Faults that stay -/

/-- Only the check of the end asks for more text. -/
theorem Diagnostic.isOpen_grammar (cause : GrammarFault) :
    (grammar cause).isOpen = decide (cause.check = .ending) := by
  cases cause <;> rfl

namespace Context

theorem cramped_not_isOpen {c : Context} {cause : GrammarFault}
    (h : c.previous.bind Item.crampedAfter = some cause) :
    (Diagnostic.grammar cause).isOpen = false := by
  rw [Diagnostic.isOpen_grammar, check_of_cramped h]
  rfl

theorem objection_not_isOpen {c : Context} {token : Token} {cause : GrammarFault}
    (h : c.objection token = some cause) : (Diagnostic.grammar cause).isOpen = false := by
  rcases Option.or_eq_some_iff.1 h with cramped | ⟨_, unfit⟩
  · exact cramped_not_isOpen cramped
  · rw [Diagnostic.isOpen_grammar, check_of_unfit unfit]
    rfl

theorem unfinished_isOpen {c : Context} {length : Nat} {cause : GrammarFault}
    (h : c.unfinished length = some cause) : (Diagnostic.grammar cause).isOpen = true := by
  rw [Diagnostic.isOpen_grammar, check_of_unfinished h]
  rfl

/-- What the last token lacks is missed before anything behind it is looked at. -/
theorem verdict_of_cramped {c : Context} {cause : GrammarFault}
    (h : c.previous.bind Item.crampedAfter = some cause) (length : Nat)
    (fault : Option LexicalFault) (tokens : List Token) :
    c.verdict length fault tokens = some (.grammar cause) := by
  cases tokens with
  | nil => rw [verdict, ending, h, Option.map_some, Option.some_or]
  | cons token rest =>
      have objection : c.objection token = some cause := by
        rw [Context.objection, h, Option.some_or]
      rw [verdict, objection]

/-- A fault that is not that of an early end is found on the way to it. -/
theorem verdict_goes_on {c : Context} {length : Nat} {fault : Option LexicalFault}
    {tokens : List Token} {d : Diagnostic} (h : c.verdict length fault tokens = some d)
    (final : d.isOpen = false) (longer : Nat) {fault' : Option LexicalFault} {rest : List Token}
    (either : fault = none ∨ (fault' = fault ∧ rest = [])) :
    c.verdict longer fault' (tokens ++ rest) = some d := by
  induction tokens generalizing c with
  | nil =>
      rw [List.nil_append]
      cases cramped : c.previous.bind Item.crampedAfter with
      | some cause =>
          rw [verdict_of_cramped cramped] at h ⊢
          exact h
      | none =>
          rw [verdict, ending, cramped, Option.map_none, Option.none_or] at h
          cases fault with
          | some cause =>
              obtain ⟨rfl, rfl⟩ := either.resolve_left (by simp)
              rw [verdict, ending, cramped, Option.map_none, Option.none_or]
              exact h
          | none =>
              rw [Option.map_none, Option.none_or] at h
              obtain ⟨cause, unfinished, rfl⟩ := Option.map_eq_some_iff.1 h
              rw [unfinished_isOpen unfinished] at final
              cases final
  | cons token more ih =>
      rw [verdict] at h
      rw [List.cons_append, verdict]
      cases objection : c.objection token with
      | some cause =>
          rw [objection] at h
          exact h
      | none =>
          rw [objection] at h
          exact ih h

/-- It stays when another scan follows, whatever that holds. -/
theorem verdict_append {c : Context} {length : Nat} {scan : Scan} {d : Diagnostic}
    (h : c.verdict length scan.fault scan.tokens = some d) (final : d.isOpen = false)
    (longer : Nat) (more : Scan) :
    c.verdict longer (scan.append more).fault (scan.append more).tokens = some d := by
  cases fault : scan.fault with
  | none =>
      rw [Scan.append_of_readable fault]
      exact verdict_goes_on h final longer (.inl fault)
  | some cause =>
      rw [Scan.append_of_fault fault, ← List.append_nil scan.tokens]
      exact verdict_goes_on h final longer (.inr ⟨rfl, rfl⟩)

/-! ## Texts that can go on -/

section

variable {c : Context} {roles : List Role}

/-- Tokens whose only fault is that they end lead to where any others can go on. -/
theorem Stands.exists_last (h : c.Stands roles) (length : Nat) (fault : Option LexicalFault)
    (tokens : List Token)
    (open_end : ∀ d, c.verdict length fault tokens = some d → d.isOpen = true) :
    ∃ last : Context,
      last.Stands (roles ++ (Item.inOrder (c.previous.map Item.role) tokens).map Item.role) ∧
      last.previous.bind Item.crampedAfter = none ∧ fault = none ∧
      ∀ longer fault' rest,
        c.verdict longer fault' (tokens ++ rest) = last.verdict longer fault' rest := by
  induction tokens generalizing c roles with
  | nil =>
      cases cramped : c.previous.bind Item.crampedAfter with
      | some cause =>
          have never := open_end _ (verdict_of_cramped cramped length fault [])
          rw [cramped_not_isOpen cramped] at never
          cases never
      | none =>
          have readable : fault = none := by
            cases fault with
            | none => rfl
            | some cause =>
                have never := open_end (.lexical cause) (by rw [verdict, ending, cramped]; rfl)
                cases never
          rw [Item.inOrder, List.map_nil, List.append_nil]
          exact ⟨c, h, cramped, readable, fun _ _ _ => rfl⟩
  | cons token rest ih =>
      have all : (Item.inOrder (c.previous.map Item.role) (token :: rest)).map Item.role =
          (c.item token).role ::
            (Item.inOrder ((c.advance token).previous.map Item.role) rest).map Item.role := rfl
      rw [verdict] at open_end
      cases objection : c.objection token with
      | some cause =>
          rw [objection] at open_end
          have never := open_end _ rfl
          rw [objection_not_isOpen objection] at never
          cases never
      | none =>
          rw [objection] at open_end
          obtain ⟨last, stands, still, readable, goes_on⟩ := ih (h.advance objection) open_end
          rw [all, List.append_cons]
          refine ⟨last, stands, still, readable, fun longer fault' more => ?_⟩
          rw [List.cons_append, verdict, objection]
          exact goes_on longer fault' more

/-- Nothing is wrong with an operand or a closing parenthesis that a reader may pass, as long as the
operators are not too many. -/
theorem Stands.objection_of_operand (h : c.Stands roles) {token : Token} {next : Stance}
    (still : c.previous.bind Item.crampedAfter = none)
    (number : ∀ n, token.word ≠ .number n) (operand : (c.item token).role.needsRight = false)
    (step : c.stance.step (c.item token).role = some next)
    (short : (roles ++ [(c.item token).role]).countP (· ≠ .value) ≤ Admission.maxOperators) :
    c.objection token = none := by
  have logical : (c.item token).role.isLogical = true := by
    cases role : (c.item token).role with
    | value | closing => rfl
    | unary | binary | opening => rw [role] at operand; cases operand
  have clear : (c.item token).crampedBefore = none := by
    apply (c.item token).crampedBefore_eq_none_iff.2
    intro op binary
    rw [binary] at operand
    cases operand
  obtain ⟨some_nesting, _⟩ := (c.stance_step_isSome_iff _).1 ⟨next, step⟩
  obtain ⟨nesting, nested⟩ := Option.isSome_iff_exists.1 some_nesting
  have shallow : depthBehind (roles ++ [(c.item token).role]) ≤ Nesting.limit := by
    rw [← (h.tracks_step step nested).depth_eq]
    exact Nat.le_trans (Nesting.depth_le_of_step nested operand) h.shallow
  have settled : ∀ before, c.previous = some before → before.crampedAfter = none := by
    intro before found
    rw [found] at still
    exact still
  exact (h.objection_eq_none_iff token).2
    ⟨settled, Item.foreign_eq_none c.grammar number logical, clear, ⟨next, step⟩, shallow, short⟩

/-- What is known behind such a token. -/
theorem Stands.pass_operand (h : c.Stands roles) {token : Token} {role : Role} (next : Stance)
    (still : c.previous.bind Item.crampedAfter = none) (named : (c.item token).role = role)
    (number : ∀ n, token.word ≠ .number n) (operand : role.needsRight = false)
    (step : c.stance.step role = some next)
    (short : c.operators + [role].countP (· ≠ .value) ≤ Admission.maxOperators) :
    c.objection token = none ∧ (c.advance token).stance = next ∧
      (c.advance token).operators = c.operators + [role].countP (· ≠ .value) ∧
      (c.advance token).previous.bind Item.crampedAfter = none := by
  subst named
  have count : (roles ++ [(c.item token).role]).countP (· ≠ .value) =
      c.operators + [(c.item token).role].countP (· ≠ .value) := by
    rw [List.countP_append, ← h.counted]
  have clear := h.objection_of_operand still number operand step (count ▸ short)
  refine ⟨clear, ?_, ?_, ?_⟩
  · have passed := (h.stance_advance clear).symm.trans step
    exact Option.some.inj passed
  · rw [(h.advance clear).counted, count]
  · apply (c.item token).crampedAfter_eq_none_iff.2
    intro op binary
    rw [binary] at operand
    cases operand

/-- As many closing parentheses as are open complete a text whose last operand has come. -/
theorem Stands.verdict_closers (h : c.Stands roles) {tokens : List Token}
    (still : c.previous.bind Item.crampedAfter = none) (idle : c.stance.due = false)
    (short : c.operators + c.stance.opened ≤ Admission.maxOperators)
    (closers : tokens.map Token.word = List.replicate c.stance.opened .closeParen)
    (length : Nat) : c.verdict length none tokens = none := by
  induction tokens generalizing c roles with
  | nil =>
      have closed : c.stance.opened = 0 := by
        have none := congrArg List.length closers
        simpa using none.symm
      have done : c.stance = .done := by
        rw [Stance.done, ← idle, ← closed]
      apply (ending_eq_none_iff c length none).2
      refine ⟨?_, rfl, done⟩
      intro before found
      rw [found] at still
      exact still
  | cons token rest ih =>
      obtain ⟨m, opened⟩ : ∃ m, c.stance.opened = m + 1 := by
        cases opened : c.stance.opened with
        | zero => rw [opened] at closers; cases closers
        | succ m => exact ⟨m, rfl⟩
      rw [opened, List.map_cons, List.replicate_succ, List.cons.injEq] at closers
      obtain ⟨word, closers⟩ := closers
      have here : c.stance = ⟨false, m + 1⟩ := by rw [← idle, ← opened]
      have named : (c.item token).role = .closing := by rw [item, word]; rfl
      have one : [Role.closing].countP (· ≠ .value) = 1 := rfl
      obtain ⟨clear, stance, counted, settled⟩ := h.pass_operand ⟨false, m⟩ still named
        (by simp [word]) rfl (by rw [here, Stance.step_closing]) (by omega)
      rw [verdict, clear]
      apply ih (h.advance clear) settled
      · rw [stance]
      · rw [stance, counted]
        simp only
        omega
      · rw [stance]
        exact closers

theorem Stands.verdict_completion (h : c.Stands roles) {tokens : List Token}
    (still : c.previous.bind Item.crampedAfter = none)
    (short : c.operators + c.stance.opened ≤ Admission.maxOperators)
    (words : tokens.map Token.word = c.stance.completion) (length : Nat) :
    c.verdict length none tokens = none := by
  cases due : c.stance.due with
  | false =>
      rw [Stance.completion, due] at words
      exact h.verdict_closers still due short words length
  | true =>
      rw [Stance.completion, due, if_pos rfl, List.singleton_append] at words
      obtain ⟨token, rest, rfl, word, closers⟩ := List.map_eq_cons_iff.1 words
      have here : c.stance = ⟨true, c.stance.opened⟩ := by rw [← due]
      have named : (c.item token).role = .value := by rw [item, word]; rfl
      have none : [Role.value].countP (· ≠ .value) = 0 := rfl
      obtain ⟨clear, stance, counted, settled⟩ := h.pass_operand
        ⟨false, c.stance.opened⟩ still named (by simp [word]) rfl
        (by rw [here, Stance.step_value]) (by omega)
      rw [verdict, clear]
      apply (h.advance clear).verdict_closers settled
      · rw [stance]
      · rw [stance, counted]
        simp only
        omega
      · rw [stance]
        exact closers

end

end Context

/-! ## The text that completes -/

namespace Scan

variable (p : Punctuation) (o : Offset) (spaced : Bool)

theorem scan_closers (n : Nat) :
    (scanFrom p o spaced 0 (List.replicate n ')')).fault = none ∧
      (scanFrom p o spaced 0 (List.replicate n ')')).tokens.map Token.word =
        List.replicate n .closeParen := by
  induction n generalizing o spaced with
  | zero => exact ⟨rfl, rfl⟩
  | succ n ih =>
      obtain ⟨readable, words⟩ := ih (o.past [')']) false
      rw [List.replicate_succ, scanFrom_close]
      exact ⟨readable, congrArg _ words⟩

theorem scan_true :
    (scanFrom p o spaced 0 "true".toList).fault = none ∧
      (scanFrom p o spaced 0 "true".toList).tokens.map Token.word = [.bool true] := by
  have ends : ∀ d, ([] : List Char).head? = some d → Lexeme.Stops p d := by simp
  obtain ⟨token, word, _, _, yields⟩ := takes_of_whole (Lexeme.whole_bool p true) ends o spaced
  have text : "true".toList = (Expr.bool true).chars := rfl
  rw [text, yields.scanFrom_eq, List.map_singleton, word]
  exact ⟨rfl, rfl⟩

/-- The characters that complete a text in this stance. -/
def completionText (st : Stance) : List Char :=
  (if st.due then "true".toList ++ [' '] else []) ++ List.replicate st.opened ')'

theorem scan_completion (st : Stance) :
    (scanFrom p o spaced 0 (completionText st)).fault = none ∧
      (scanFrom p o spaced 0 (completionText st)).tokens.map Token.word = st.completion := by
  cases due : st.due with
  | false =>
      have text : completionText st = List.replicate st.opened ')' := by rw [completionText, due]; rfl
      have words : st.completion = List.replicate st.opened .closeParen := by
        rw [Stance.completion, due]
        rfl
      rw [text, words]
      exact scan_closers p o spaced st.opened
  | true =>
      have text : completionText st = "true".toList ++ ' ' :: List.replicate st.opened ')' := by
        rw [completionText, due]
        rfl
      have words : st.completion = [.bool true] ++ List.replicate st.opened .closeParen := by
        rw [Stance.completion, due]
        rfl
      have blank : Text.isBlank ' ' = true := by decide
      obtain ⟨readable, operand⟩ := scan_true p o spaced
      obtain ⟨closed, closers⟩ :=
        scan_closers p (o.past ("true".toList ++ [' '])) true st.opened
      rw [text, words, scanFrom_append_blank p blank, append_of_readable readable]
      exact ⟨closed, by rw [List.map_append, operand, closers]⟩

theorem ofText_append_blank (source more : String) {b : Char} (blank : Text.isBlank b = true) :
    ofText p (source ++ String.singleton b ++ more) =
      (ofText p source).append
        (scanFrom p (Offset.zero.past (source.toList ++ [b])) true 0 more.toList) := by
  have text : (source ++ String.singleton b ++ more).toList =
      source.toList ++ b :: more.toList := by
    simp
  rw [ofText, text, scanFrom_append_blank p blank, ofText]

end Scan

/-! ## Every text -/

namespace Formula

section

variable {g : Grammar} {p : Punctuation} {source : String}

theorem compile_append_blank {d : Diagnostic} (h : compile g p source = .error d)
    (final : d.isOpen = false) {b : Char} (blank : Text.isBlank b = true) (more : String) :
    compile g p (source ++ String.singleton b ++ more) = .error d := by
  rw [compile_eq_error_iff] at h ⊢
  rw [Scan.ofText_append_blank p source more blank]
  exact Context.verdict_append h final _ _

theorem exists_completion
    (open_end : ∀ d, compile g p source = .error d → d.isOpen = true)
    (short : ((Scan.ofText p source).items.map Item.role).countP (· ≠ .value) +
      unclosed ((Scan.ofText p source).items.map Item.role) ≤ Admission.maxOperators) :
    ∃ more f, compile g p (source ++ String.singleton ' ' ++ more) = .ok f := by
  obtain ⟨last, stands, still, readable, goes_on⟩ :=
    (Context.stands_start g).exists_last source.toList.length (Scan.ofText p source).fault
      (Scan.ofText p source).tokens fun d found => open_end d ((compile_eq_error_iff g p source d).2 found)
  have opened : last.stance.opened = unclosed ((Scan.ofText p source).items.map Item.role) :=
    stands.tracks.unclosed_eq
  have counted : last.operators =
      ((Scan.ofText p source).items.map Item.role).countP (· ≠ .value) := stands.counted
  let more := String.ofList (Scan.completionText last.stance)
  have blank : Text.isBlank ' ' = true := by decide
  obtain ⟨closed, words⟩ := Scan.scan_completion p
    (Offset.zero.past (source.toList ++ [' '])) true last.stance
  refine ⟨more, (exists_compile_eq_ok_iff g p _).2 ?_⟩
  rw [Scan.ofText_append_blank p source more blank, Scan.append_of_readable readable, goes_on]
  rw [String.toList_ofList, closed]
  exact stands.verdict_completion still (by rw [opened, counted]; exact short) words _

end

/-- A fault stays whatever follows behind white space, unless it is that the text ends; and a text
with no other fault can be completed, unless that takes too many operators. -/
theorem compile_continuation (g : Grammar) (p : Punctuation) (source : String) :
    (∀ d, compile g p source = .error d → d.isOpen = false →
      ∀ b more, Text.isBlank b = true →
        compile g p (source ++ String.singleton b ++ more) = .error d) ∧
    ((∃ f, compile g p source = .ok f) ∨
        (∃ d, compile g p source = .error d ∧ d.isOpen = true) →
      ((Scan.ofText p source).items.map Item.role).countP (· ≠ .value) +
        unclosed ((Scan.ofText p source).items.map Item.role) ≤ 1024 →
      ∃ more f, compile g p (source ++ " " ++ more) = .ok f) := by
  refine ⟨fun d refused final b more blank => compile_append_blank refused final blank more,
    fun compiled short => exists_completion (fun d refused => ?_) short⟩
  rcases compiled with ⟨f, accepted⟩ | ⟨d', refused', open_end⟩
  · rw [accepted] at refused
    cases refused
  · rw [refused'] at refused
    cases refused
    exact open_end

/-- Two numbers side by side stay a fault; an open negation of two conditions does not. -/
theorem compile_continuation_sample :
    compile .arithmetic .standard ("2 3" ++ String.singleton '\n' ++ "+ 4") =
        .error (.grammar (.missingOperator "3" 2 0)) ∧
      ∃ more f, compile .boolean .standard ("!(a && (" ++ " " ++ more) = .ok f :=
  ⟨(compile_continuation _ _ _).1 _ ((compile_eq_error_iff _ _ _ _).2 (by decide +kernel)) rfl
      _ _ rfl,
    (compile_continuation _ _ _).2
      (.inr ⟨.grammar (.openEnd "(" 8), (compile_eq_error_iff _ _ _ _).2 (by decide +kernel), rfl⟩)
      (by decide +kernel)⟩

end Formula

end Criterion
