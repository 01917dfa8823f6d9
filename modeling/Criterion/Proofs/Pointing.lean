/-
# Criterion.Proofs.Pointing — a diagnostic points at what it names

A diagnostic quotes the text and says where. `Diagnostic.Points` says, cause by cause, what has to be
found in the text at the places given: the words quoted stand there, what is said to be missing is
missing, and a parenthesis said to be open is never closed.

Places come from three sources: the scan, for what it stops at; the token that a check refuses; and
what the context remembers of the tokens before it. `Scan.apt_of_fault`, the lemmas of `Item` and
those of `Context.Recalls` see to one each, and `apt_of_compile` puts them together.
-/
import Criterion.Proofs.Gaps
import Criterion.Proofs.Language
import Criterion.Proofs.Memory
import Criterion.Proofs.Spelling

namespace Criterion

set_option autoImplicit false

/-! ## What is found at a place -/

/-- The word is written in the text from the place on. -/
def StandsAt (text : List Char) (word : String) (i : Nat) : Prop := word.toList <+: text.drop i

/-- The word is written in the text up to the place. -/
def EndsAt (text : List Char) (word : String) (i : Nat) : Prop := word.toList <:+ text.take i

/-- What a fault in the letters says of the text is so. -/
def LexicalFault.Points (p : Punctuation) (text : List Char) : LexicalFault → Prop
  | halved c i | strange c i => text[i]? = some c
  | openName name i =>
      EndsAt text name (i + 1) ∧ ∃ c, text[i]? = some c ∧ name.toList.getLast? = some c ∧
        p.contains c = true
  | mergedNumber digits i | hugeNumber digits i => StandsAt text digits i

/-- What a fault in the grammar says of the text and its tokens is so. -/
def GrammarFault.Points (text : List Char) (tokens : List Token) : GrammarFault → Prop
  | empty => BlankBetween text 0 text.length
  | crampedBefore op i =>
      ∃ front c, text.take i = front ++ c :: op.toList ∧ Text.isBlank c = false
  | crampedAfter op i => EndsAt text op i ∧ ∃ c, text[i]? = some c ∧ Text.isBlank c = false
  | missingOperator token i previous =>
      StandsAt text token i ∧ ∃ before first second behind,
        tokens = before ++ first :: second :: behind ∧
          first.start.chars = previous ∧ second.start.chars = i
  | missingOperand first i second j =>
      StandsAt text first i ∧ StandsAt text second j ∧ i < j ∧
        BlankBetween text (i + first.toList.length) j
  | openEnd op i => i = text.length ∧ ∃ j, EndsAt text op j ∧ BlankBetween text j i
  | openStart op i =>
      StandsAt text op i ∧ ∃ first behind, tokens = first :: behind ∧ first.start.chars = i
  | emptyParenthesis i =>
      StandsAt text "(" i ∧ ∃ j, i < j ∧ StandsAt text ")" j ∧ BlankBetween text (i + 1) j
  | unclosed i =>
      StandsAt text "(" i ∧ ∃ before opener behind, tokens = before ++ opener :: behind ∧
        opener.word = .openParen ∧ opener.start.chars = i ∧ Paired behind
  | unmatched i =>
      StandsAt text ")" i ∧ ∃ before closer behind, tokens = before ++ closer :: behind ∧
        closer.word = .closeParen ∧ closer.start.chars = i ∧ Paired before
  | foreignNumber word i | foreignOperator word i => StandsAt text word i
  | tooLong _ i | tooDeep _ i => ∃ token ∈ tokens, token.start.chars = i
  -- Arranging could object so, but no text makes it.
  | unexpected _ _ => False

namespace Diagnostic

/-- What the diagnostic says of the text is so. -/
def Points (p : Punctuation) (source : String) : Diagnostic → Prop
  | lexical fault => fault.Points p source.toList
  | grammar fault => fault.Points source.toList (Scan.ofText p source).tokens

/-- The places of the diagnostic are places of the text, and what it says of them is so. -/
structure Apt (p : Punctuation) (source : String) (d : Diagnostic) : Prop where
  index_le : d.index ≤ source.toList.length
  secondIndex_le : ∀ i, d.secondIndex = some i → i ≤ source.toList.length
  points : d.Points p source

/-- A diagnostic with one place is apt if that is. -/
theorem Apt.single {p : Punctuation} {source : String} {d : Diagnostic}
    (alone : d.secondIndex = none) (inside : d.index ≤ source.toList.length)
    (points : d.Points p source) : d.Apt p source :=
  ⟨inside, fun _ second => (by rw [alone] at second; cases second), points⟩

end Diagnostic

/-- A role with a property that operands lack is not an operand's. -/
theorem Role.ne_value (q : Role → Bool) {role : Role} (operand : q .value = false)
    (h : q role = true) : role ≠ .value := by
  rintro rfl
  rw [operand] at h
  cases h

/-! ## Letters -/

namespace LexicalFault

/-- The characters that form no token. -/
def lexeme : LexicalFault → List Char
  | halved c _ | strange c _ => [c]
  | openName text _ | mergedNumber text _ | hugeNumber text _ => text.toList

/-- How far the place of the fault is behind the start of its lexeme: a name is at fault at its last
character. -/
def inset : LexicalFault → Nat
  | openName name _ => name.length - 1
  | halved .. | strange .. | mergedNumber .. | hugeNumber .. => 0

/-- The lexeme at fault begins the characters `cs`, the first of which is at `index`. -/
structure Begins (p : Punctuation) (index : Nat) (cs : List Char) (cause : LexicalFault) :
    Prop where
  isPrefix : cause.lexeme <+: cs
  index_eq : cause.index = index + cause.inset
  marked : ∀ name i, cause = openName name i → name.toList.getLast?.any p.contains = true

/-- A lexeme at fault is at fault for what stands there. -/
theorem Begins.points {p : Punctuation} {before cs : List Char} {cause : LexicalFault}
    (h : cause.Begins p before.length cs) (some_char : cs ≠ []) :
    cause.Points p (before ++ cs) ∧ cause.index < (before ++ cs).length := by
  have room := List.length_pos_iff.2 some_char
  obtain ⟨begins, place, marked⟩ := h
  rw [List.length_append]
  cases cause with
  | halved c i | strange c i =>
      change i = before.length at place
      obtain ⟨behind, rfl⟩ := begins
      refine ⟨?_, by simp only [index]; omega⟩
      show (before ++ ([c] ++ behind))[i]? = some c
      simp [place]
  | mergedNumber digits i | hugeNumber digits i =>
      change i = before.length at place
      refine ⟨?_, by simp only [index]; omega⟩
      show digits.toList <+: (before ++ cs).drop i
      rw [place, List.drop_left]
      exact begins
  | openName name i =>
      obtain ⟨last, final, mark⟩ := (Option.any_eq_true _ _).1 (marked name i rfl)
      obtain ⟨front, written⟩ := List.getLast?_eq_some_iff.1 final
      obtain ⟨behind, split⟩ := begins
      have length : name.length = front.length + 1 := by
        rw [← String.length_toList, written, List.length_append, List.length_singleton]
      have here : i = (before ++ front).length := by
        change i = before.length + (name.length - 1) at place
        rw [place, length, List.length_append, Nat.add_sub_cancel]
      have text : before ++ cs = (before ++ front ++ [last]) ++ behind := by
        rw [← split, lexeme, written]
        simp
      have ends : i + 1 = (before ++ front ++ [last]).length := by
        rw [here]
        simp only [List.length_append, List.length_singleton]
      refine ⟨⟨?_, last, ?_, final, mark⟩, ?_⟩
      · rw [EndsAt, text, ends, List.take_left, written, List.append_assoc]
        exact List.suffix_append _ _
      · rw [text, here]
        simp
      · rw [← List.length_append, text, List.length_append]
        simp only [index]
        omega

end LexicalFault

namespace Lexeme

section

variable {p : Punctuation} {index : Nat} {c : Char} {rest : List Char} {cause : LexicalFault}

theorem begins_of_readNumber (h : readNumber index c rest = .error cause) :
    cause.Begins p index (c :: rest) := by
  have digits : (String.ofList (c :: rest.takeWhile Char.isDigit)).toList <+: c :: rest := by
    rw [String.toList_ofList]
    exact (List.prefix_cons_inj c).2 (List.takeWhile_prefix _)
  simp only [readNumber] at h
  split at h
  · cases h
    exact ⟨digits, rfl, fun _ _ name => (by cases name)⟩
  · split at h <;> cases h
    exact ⟨digits, rfl, fun _ _ name => (by cases name)⟩

theorem begins_of_readName (h : readName p index c rest = .error cause) :
    cause.Begins p index (c :: rest) := by
  simp only [readName_eq] at h
  split at h
  · next marked =>
    cases h
    constructor
    case isPrefix =>
      rw [LexicalFault.lexeme, String.toList_ofList]
      exact (List.prefix_cons_inj c).2 (List.takeWhile_prefix _)
    case index_eq =>
      simp [LexicalFault.index, LexicalFault.inset]
    case marked =>
      intro name i same
      cases same
      obtain ⟨last, final, mark⟩ := (Option.any_eq_true _ _).1 marked
      rw [String.toList_ofList, List.getLast?_cons, final]
      exact mark
  · cases h

/-- What cannot be read begins with the lexeme at fault. -/
theorem begins_of_read (h : read p index c rest = .error cause) :
    cause.Begins p index (c :: rest) := by
  unfold read at h
  split at h
  · exact begins_of_readNumber h
  · split at h
    · exact begins_of_readName h
    · split at h
      · cases h
      · split at h
        · cases h
        · split at h <;> cases h
          unfold LexicalFault.ofChar
          split <;> exact ⟨⟨rest, rfl⟩, rfl, fun _ _ name => (by cases name)⟩

end

/-- An operator or a parenthesis is written as it is in its role. -/
theorem text_of_read {p : Punctuation} {index : Nat} {c : Char} {rest : List Char} {l : Lexeme}
    (h : read p index c rest = .ok l) {previous : Option Role}
    (sign : Role.ofWord previous l.word ≠ .value) :
    (Role.ofWord previous l.word).text = String.ofList (c :: l.tail) := by
  unfold read at h
  split at h
  · simp only [readNumber] at h
    split at h
    · cases h
    · split at h <;> cases h
      exact absurd rfl sign
  · split at h
    · simp only [readName_eq] at h
      split at h <;> cases h
      exact absurd (Role.ofWord_wordOfName previous _) sign
    · split at h
      · next paren =>
        cases h
        rw [paren]
        rfl
      · split at h
        · next paren =>
          cases h
          rw [paren]
          rfl
        · split at h
          · next found =>
            cases h
            obtain ⟨behind, eq⟩ := Sign.text_of_leading? found
            obtain ⟨d, ds, written, _⟩ := Sign.leading?_text ‹Sign›
            rw [written, List.cons_append, List.cons.injEq] at eq
            rw [Role.ofWord, Role.text_ofSign, written, List.tail_cons, eq.1, ← written,
              String.ofList_toList]
          · cases h

end Lexeme

namespace Scan

variable {p : Punctuation}

/-- What stops a scan is where the scan says. -/
theorem apt_of_fault {source : String} {cause : LexicalFault}
    (h : (ofText p source).fault = some cause) : (Diagnostic.lexical cause).Apt p source := by
  obtain ⟨reached, reaches⟩ := exists_reached p source
  obtain ⟨before, c, rest, split, length, _, read⟩ := reaches.stopped cause h
  rw [Nat.zero_add, ← length] at read
  obtain ⟨points, index⟩ := (Lexeme.begins_of_read read).points (List.cons_ne_nil c rest)
  rw [← split] at points index
  exact .single rfl (Nat.le_of_lt index) points

/-- An operator or a parenthesis is written as it is in its role. -/
theorem text_of_mem {source : String} {token : Token} (mem : token ∈ (ofText p source).tokens)
    {previous : Option Role} (sign : Role.ofWord previous token.word ≠ .value) :
    (Role.ofWord previous token.word).text = token.text :=
  forall_mem_scanFrom (motive := fun token => Role.ofWord previous token.word ≠ .value →
      (Role.ofWord previous token.word).text = token.text) .zero true source.toList
    (fun _ _ _ _ _ _ _ read sign => Lexeme.text_of_read read sign) token mem sign

end Scan

/-! ## Tokens -/

section

variable {text : List Char} {token : Token}

theorem Token.Lies.standsAt (h : token.Lies text) :
    StandsAt text token.text token.start.chars := ⟨_, h.written.symm⟩

theorem Token.Lies.stop_eq (h : token.Lies text) :
    token.stop.chars = token.start.chars + token.text.toList.length := by
  have long := h.long
  have inside := h.inside
  have room := congrArg List.length h.written
  rw [List.length_append, List.length_drop, List.length_drop] at room
  omega

/-- The text up to the end of a token is the text up to its start, and the token. -/
theorem Token.Lies.take_stop (h : token.Lies text) :
    text.take token.stop.chars = text.take token.start.chars ++ token.text.toList := by
  rw [h.stop_eq, List.take_add, h.written, List.take_left]

end

namespace Item

variable {p : Punctuation} {source : String} {item : Item} {cause : GrammarFault}

theorem text_eq (mem : item ∈ (Scan.ofText p source).items) (sign : item.role ≠ .value) :
    item.role.text = item.token.text := by
  obtain ⟨previous, worded⟩ := Item.exists_ofWord mem
  rw [worded] at sign ⊢
  exact Scan.text_of_mem (Scan.token_mem mem) sign

theorem index_le (mem : item ∈ (Scan.ofText p source).items) :
    item.index ≤ source.toList.length := by
  have lies := Scan.lies_of_mem_items mem
  have long := lies.long
  have inside := lies.inside
  unfold index
  omega

theorem standsAt (mem : item ∈ (Scan.ofText p source).items) (sign : item.role ≠ .value) :
    StandsAt source.toList item.role.text item.index :=
  text_eq mem sign ▸ (Scan.lies_of_mem_items mem).standsAt

theorem stop_eq (mem : item ∈ (Scan.ofText p source).items) (sign : item.role ≠ .value) :
    item.token.stop.chars = item.index + item.role.text.toList.length :=
  text_eq mem sign ▸ (Scan.lies_of_mem_items mem).stop_eq

theorem endsAt (mem : item ∈ (Scan.ofText p source).items) (sign : item.role ≠ .value) :
    EndsAt source.toList item.role.text item.token.stop.chars := by
  rw [EndsAt, (Scan.lies_of_mem_items mem).take_stop, text_eq mem sign]
  exact List.suffix_append _ _

theorem apt_of_crampedAfter (mem : item ∈ (Scan.ofText p source).items)
    (h : item.crampedAfter = some cause) : (Diagnostic.grammar cause).Apt p source := by
  unfold crampedAfter at h
  split at h <;> cases h
  next cramped =>
  obtain ⟨binary, touching⟩ := Bool.and_eq_true_iff.1 cramped
  have lies := Scan.lies_of_mem_items mem
  have sign := Role.ne_value Role.isBinary rfl binary
  refine .single rfl lies.inside ⟨endsAt mem sign, ?_⟩
  rw [lies.behind] at touching
  rw [← List.head?_drop]
  cases next : (source.toList.drop item.token.stop.chars).head? with
  | none => simp [next] at touching
  | some c => exact ⟨c, rfl, by simpa [next] using touching⟩

theorem apt_of_crampedBefore (mem : item ∈ (Scan.ofText p source).items)
    (h : item.crampedBefore = some cause) : (Diagnostic.grammar cause).Apt p source := by
  unfold crampedBefore at h
  split at h <;> cases h
  next cramped =>
  obtain ⟨binary, touching⟩ := Bool.and_eq_true_iff.1 cramped
  have lies := Scan.lies_of_mem_items mem
  have sign := Role.ne_value Role.isBinary rfl binary
  refine .single rfl lies.inside ?_
  rw [lies.before] at touching
  cases last : (source.toList.take item.token.start.chars).getLast? with
  | none => simp [last] at touching
  | some c =>
      obtain ⟨front, split⟩ := List.getLast?_eq_some_iff.1 last
      refine ⟨front, c, ?_, by simpa [last] using touching⟩
      rw [lies.take_stop, split, text_eq mem sign, List.append_assoc]
      rfl

theorem apt_of_foreign {g : Grammar} (mem : item ∈ (Scan.ofText p source).items)
    (h : item.foreign g = some cause) : (Diagnostic.grammar cause).Apt p source := by
  have lies := Scan.lies_of_mem_items mem
  unfold foreign at h
  split at h
  · cases h
  · cases h
    exact .single rfl (index_le mem) lies.standsAt
  · split at h <;> cases h
    next number =>
    have sign : item.role ≠ .value := by
      intro value
      rw [value] at number
      exact number rfl
    exact .single rfl (index_le mem) (standsAt mem sign)

end Item

/-! ## What a context remembers -/

namespace Context

section

variable {p : Punctuation} {source : String} {c : Context} {passed behind : List Token}
  {token : Token} {cause : GrammarFault}

/-- The token in its role is one of the text. -/
theorem Recalls.item_mem (h : c.Recalls passed)
    (split : (Scan.ofText p source).tokens = passed ++ token :: behind) :
    c.item token ∈ (Scan.ofText p source).items := by
  rw [Scan.items, split, h.inOrder_append]
  simp

/-- The last token in its role is one of the text. -/
theorem Recalls.previous_mem {more : List Token} {last : Item} (h : c.Recalls passed)
    (found : c.previous = some last)
    (split : (Scan.ofText p source).tokens = passed ++ more) :
    last ∈ (Scan.ofText p source).items := by
  rw [Scan.items, split, Item.inOrder_append]
  exact List.mem_append_left _ (List.mem_of_getLast? (h.last.symm.trans found))

theorem Recalls.apt_of_misnested (h : c.Recalls passed)
    (split : (Scan.ofText p source).tokens = passed ++ token :: behind)
    (wrong : c.misnested (c.item token) = some cause) :
    (Diagnostic.grammar cause).Apt p source := by
  have mem := h.item_mem split
  unfold misnested at wrong
  split at wrong
  · next refused =>
    cases wrong
    have closes : (c.item token).role = .closing ∧ c.nesting.enclosures.length = 0 := by
      by_contra opens
      have known := (Nesting.step_isSome_iff c.nesting (c.item token).index _).2 opens
      rw [refused] at known
      cases known
    obtain ⟨closing, bottom⟩ := closes
    have word : token.word = .closeParen := Role.word_of_closing closing
    have opened := h.opened
    rw [List.length_eq_zero_iff.1 bottom] at opened
    have stands := Item.standsAt mem (by rw [closing]; simp)
    rw [closing] at stands
    cases opened with
    | nil paired =>
        exact .single rfl (Item.index_le mem)
          ⟨stands, passed, token, behind, split, word, rfl, paired⟩
  · split at wrong <;> cases wrong
    exact .single rfl (Item.index_le mem) ⟨token, Scan.token_mem mem, rfl⟩

theorem Recalls.apt_of_overlong (h : c.Recalls passed)
    (split : (Scan.ofText p source).tokens = passed ++ token :: behind)
    (wrong : c.overlong (c.item token) = some cause) :
    (Diagnostic.grammar cause).Apt p source := by
  have mem := h.item_mem split
  unfold overlong at wrong
  split at wrong <;> cases wrong
  exact .single rfl (Item.index_le mem) ⟨token, Scan.token_mem mem, rfl⟩

/-- Two neighbours, and what is written between them. -/
theorem Recalls.neighbours {last : Item} (h : c.Recalls passed)
    (split : (Scan.ofText p source).tokens = passed ++ token :: behind)
    (found : c.previous = some last) :
    ∃ front, (Scan.ofText p source).tokens = front ++ last.token :: token :: behind ∧
      last.token.stop.chars ≤ token.start.chars ∧
      BlankBetween source.toList last.token.stop.chars token.start.chars := by
  obtain ⟨front, rfl⟩ := h.exists_front found
  rw [List.append_assoc, List.singleton_append] at split
  have ordered := Scan.pairwise_ofText p source
  rw [split, List.pairwise_append, List.pairwise_cons] at ordered
  exact ⟨front, split, ordered.2.1.1 token (.head _), Scan.blank_between split⟩

/-- Nothing stands before the first token. -/
theorem Recalls.apt_of_misplaced_first (h : c.Recalls passed)
    (split : (Scan.ofText p source).tokens = passed ++ token :: behind)
    (found : c.previous = none) (wrong : (c.item token).misplaced none = some cause) :
    (Diagnostic.grammar cause).Apt p source := by
  have mem := h.item_mem split
  obtain rfl := h.eq_nil found
  simp only [Item.misplaced] at wrong
  split at wrong <;> cases wrong
  next left =>
  have sign := Role.ne_value Role.needsLeft rfl left
  exact .single rfl (Item.index_le mem) ⟨Item.standsAt mem sign, token, behind, split, rfl⟩

theorem Recalls.apt_of_misplaced_behind {last : Item} (h : c.Recalls passed)
    (split : (Scan.ofText p source).tokens = passed ++ token :: behind)
    (found : c.previous = some last) (wrong : (c.item token).misplaced (some last) = some cause) :
    (Diagnostic.grammar cause).Apt p source := by
  have mem := h.item_mem split
  have inside := Item.index_le mem
  have last_mem := h.previous_mem found split
  have last_inside := Item.index_le last_mem
  have long := (Scan.lies_of_mem_items last_mem).long
  obtain ⟨front, tokens, ordered, blank⟩ := h.neighbours split found
  have apart : last.index < (c.item token).index := Nat.lt_of_lt_of_le long ordered
  simp only [Item.misplaced] at wrong
  split at wrong
  · next both =>
    cases wrong
    obtain ⟨opening, closing⟩ := both
    have opener := Item.standsAt last_mem (by rw [opening]; simp)
    have closer := Item.standsAt mem (by rw [closing]; simp)
    have stop := Item.stop_eq last_mem (by rw [opening]; simp)
    rw [opening] at opener stop
    rw [closing] at closer
    rw [stop] at blank
    exact .single rfl last_inside ⟨opener, _, apart, closer, blank⟩
  · split at wrong
    · next same =>
      split at wrong <;> cases wrong
      · next right =>
        have sign := Role.ne_value Role.needsRight rfl right
        have sign' := Role.ne_value Role.needsLeft rfl (same.symm.trans right)
        rw [Item.stop_eq last_mem sign] at blank
        refine ⟨last_inside, fun _ second => ?_, Item.standsAt last_mem sign,
          Item.standsAt mem sign', apart, blank⟩
        cases second
        exact inside
      · refine ⟨inside, fun _ second => ?_, (Scan.lies_of_mem_items mem).standsAt, front,
          last.token, token, behind, tokens, rfl, rfl⟩
        cases second
        exact last_inside
    · cases wrong

theorem Recalls.apt_of_misplaced (h : c.Recalls passed)
    (split : (Scan.ofText p source).tokens = passed ++ token :: behind)
    (wrong : (c.item token).misplaced c.previous = some cause) :
    (Diagnostic.grammar cause).Apt p source := by
  cases found : c.previous with
  | none => exact h.apt_of_misplaced_first split found (found ▸ wrong)
  | some last => exact h.apt_of_misplaced_behind split found (found ▸ wrong)

/-- Whatever a token is refused for, the cause is apt. -/
theorem Recalls.apt_of_objection (h : c.Recalls passed)
    (split : (Scan.ofText p source).tokens = passed ++ token :: behind)
    (wrong : c.objection token = some cause) : (Diagnostic.grammar cause).Apt p source := by
  have mem := h.item_mem split
  simp only [objection, unfit, Option.or_eq_some_iff, Option.bind_eq_some_iff] at wrong
  rcases wrong with ⟨last, found, cramped⟩ | ⟨_, foreign | ⟨_, cramped | ⟨_, nested | ⟨_, long |
    ⟨_, misplaced⟩⟩⟩⟩⟩
  · exact Item.apt_of_crampedAfter (h.previous_mem found split) cramped
  · exact Item.apt_of_foreign mem foreign
  · exact Item.apt_of_crampedBefore mem cramped
  · exact h.apt_of_misnested split nested
  · exact h.apt_of_overlong split long
  · exact h.apt_of_misplaced split misplaced

/-- The parenthesis on top of the stack is the innermost that is never closed. -/
theorem Recalls.apt_of_enclosure {enclosure : Enclosure} {outer : List Enclosure}
    (h : c.Recalls (Scan.ofText p source).tokens)
    (stack : c.nesting.enclosures = enclosure :: outer) :
    (Diagnostic.grammar (.unclosed enclosure.index)).Apt p source := by
  have opened := h.opened
  rw [stack] at opened
  obtain ⟨before, opener, behind, split, word, place, paired⟩ := opened.exists_opener
  have mem : opener ∈ (Scan.ofText p source).tokens := by simp [split]
  have lies := Scan.lies_of_mem_ofText mem
  have written : "(" = opener.text := by
    have role : Role.ofWord none opener.word = .opening := by rw [word]; rfl
    have spelled := Scan.text_of_mem mem (fun value => by rw [role] at value; cases value)
    rw [role] at spelled
    exact spelled
  have stands : StandsAt source.toList "(" enclosure.index := by
    rw [place, written]
    exact lies.standsAt
  have inside : enclosure.index ≤ source.toList.length := by
    rw [place]
    exact Nat.le_trans (Nat.le_of_lt lies.long) lies.inside
  exact .single rfl inside ⟨stands, before, opener, behind, split, word, place.symm, paired⟩

/-- A text that must not end is unfinished for what is said. -/
theorem Recalls.apt_of_unfinished (h : c.Recalls (Scan.ofText p source).tokens)
    (readable : (Scan.ofText p source).fault = none)
    (wrong : c.unfinished source.toList.length = some cause) :
    (Diagnostic.grammar cause).Apt p source := by
  unfold unfinished at wrong
  cases found : c.previous with
  | none =>
      rw [found] at wrong
      cases wrong
      exact .single rfl (Nat.zero_le _) (Scan.blank_of_nil readable (h.eq_nil found))
  | some last =>
      have mem := h.previous_mem found (List.append_nil _).symm
      rw [found] at wrong
      simp only at wrong
      split at wrong
      · next right =>
        cases wrong
        have sign := Role.ne_value Role.needsRight rfl right
        obtain ⟨front, split⟩ := h.exists_front found
        exact .single rfl (Nat.le_refl _)
          ⟨rfl, _, Item.endsAt mem sign, Scan.blank_behind readable split⟩
      · obtain ⟨enclosure, top, rfl⟩ := Option.map_eq_some_iff.1 wrong
        obtain ⟨outer, stack⟩ := List.head?_eq_some_iff.1 top
        exact h.apt_of_enclosure stack

/-- Whatever is wrong with a text at its end, the diagnostic is apt. -/
theorem Recalls.apt_of_ending {d : Diagnostic} (h : c.Recalls (Scan.ofText p source).tokens)
    (wrong : c.ending source.toList.length (Scan.ofText p source).fault = some d) :
    d.Apt p source := by
  simp only [ending, Option.or_eq_some_iff, Option.map_eq_some_iff, Option.bind_eq_some_iff,
    Option.map_eq_none_iff] at wrong
  rcases wrong with ⟨_, ⟨last, found, cramped⟩, rfl⟩ | ⟨_, ⟨fault, stopped, rfl⟩ |
    ⟨readable, _, unfinished, rfl⟩⟩
  · exact Item.apt_of_crampedAfter (h.previous_mem found (List.append_nil _).symm) cramped
  · exact Scan.apt_of_fault stopped
  · exact h.apt_of_unfinished readable unfinished

end

end Context

namespace Formula

/-- A text that does not compile is at fault for what its diagnostic says, where it says. -/
theorem apt_of_compile {g : Grammar} {p : Punctuation} {source : String} {d : Diagnostic}
    (h : compile g p source = .error d) : d.Apt p source := by
  have wrong := (compile_eq_error_iff g p source d).1 h
  rcases (Context.recalls_start g).verdict_cases wrong with
    ⟨c, passed, token, behind, cause, split, recalls, refused, rfl⟩ | ⟨c, recalls, ended⟩
  · exact recalls.apt_of_objection split refused
  · exact recalls.apt_of_ending ended

/-- Places are counted in characters, and the parentheses that are closed do not matter. -/
theorem apt_of_compile_unclosed :
    compile .arithmetic .standard "α + (β * (2)) - (γ" = .error (.grammar (.unclosed 16)) ∧
      (Diagnostic.grammar (.unclosed 16)).Apt .standard "α + (β * (2)) - (γ" := by
  have wrong : compile .arithmetic .standard "α + (β * (2)) - (γ" =
      .error (.grammar (.unclosed 16)) :=
    (compile_eq_error_iff _ _ _ _).2 (by decide +kernel)
  exact ⟨wrong, apt_of_compile wrong⟩

end Formula

end Criterion
