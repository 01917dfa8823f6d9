/-
# Criterion.Proofs.Places — no rule asks where a token stands

Diagnostics report places, and tokens carry them, but no check of the grammar compares one place
with another or counts with it: a place is only handed on. So places may be counted in any other way,
`f i` for `i`, and all that changes is how those of the diagnostic are counted
(`Context.verdict_relocate`). The bytes before a token are not even handed on; `relocate` forgets
them.

A lexeme is read without regard to its place as well (`Lexeme.read_eq_relocate`), so a text is scanned
alike wherever it stands (`Scan.scanFrom_relocate`).

Nor does a tree depend on more than the roles and the words of its tokens: `Layered.replace` says what
becomes of it when they are replaced, and `Layered.congr` that they are all that counts.
-/
import Criterion.Proofs.Parse
import Criterion.Proofs.Scanning

namespace Criterion

set_option autoImplicit false

/-! ## Counting places otherwise -/

namespace LexicalFault

def relocate (f : Nat → Nat) : LexicalFault → LexicalFault
  | halved c i => halved c (f i)
  | strange c i => strange c (f i)
  | openName name i => openName name (f i)
  | mergedNumber digits i => mergedNumber digits (f i)
  | hugeNumber digits i => hugeNumber digits (f i)

theorem relocate_relocate (f g : Nat → Nat) (fault : LexicalFault) :
    (fault.relocate f).relocate g = fault.relocate (g ∘ f) := by
  cases fault <;> rfl

/-- A fault has one place, and only that one is counted. -/
theorem relocate_congr {f g : Nat → Nat} {fault : LexicalFault}
    (same : f fault.index = g fault.index) : fault.relocate f = fault.relocate g := by
  cases fault <;> simp_all [relocate, index]

end LexicalFault

namespace GrammarFault

def relocate (f : Nat → Nat) : GrammarFault → GrammarFault
  | empty => empty
  | crampedBefore op i => crampedBefore op (f i)
  | crampedAfter op i => crampedAfter op (f i)
  | missingOperator token i previous => missingOperator token (f i) (f previous)
  | missingOperand first i second j => missingOperand first (f i) second (f j)
  | openEnd op i => openEnd op (f i)
  | openStart op i => openStart op (f i)
  | emptyParenthesis i => emptyParenthesis (f i)
  | unclosed i => unclosed (f i)
  | unmatched i => unmatched (f i)
  | foreignNumber digits i => foreignNumber digits (f i)
  | foreignOperator op i => foreignOperator op (f i)
  | tooLong limit i => tooLong limit (f i)
  | tooDeep limit i => tooDeep limit (f i)
  | unexpected token i => unexpected token (f i)

end GrammarFault

/-- The same diagnostic, where `f i` is written for the place `i`. -/
def Diagnostic.relocate (f : Nat → Nat) : Diagnostic → Diagnostic
  | .lexical fault => .lexical (fault.relocate f)
  | .grammar fault => .grammar (fault.relocate f)

/-- Only the place of a text without tokens is no place in it, but its start. -/
theorem Diagnostic.index_relocate {f : Nat → Nat} (start : f 0 = 0) (d : Diagnostic) :
    (d.relocate f).index = f d.index := by
  cases d with
  | lexical fault => cases fault <;> rfl
  | grammar fault =>
      cases fault with
      | empty => exact start.symm
      | _ => rfl

/-- A second place is counted otherwise if there is one. -/
theorem Diagnostic.secondIndex_relocate (f : Nat → Nat) (d : Diagnostic) :
    (d.relocate f).secondIndex = d.secondIndex.map f := by
  cases d with
  | lexical fault => rfl
  | grammar fault => cases fault <;> rfl

def Token.relocate (f : Nat → Nat) (token : Token) : Token :=
  { token with start := ⟨0, f token.start.chars⟩, stop := ⟨0, f token.stop.chars⟩ }

def Item.relocate (f : Nat → Nat) (item : Item) : Item := ⟨item.role, item.token.relocate f⟩

def Scan.relocate (f : Nat → Nat) (s : Scan) : Scan :=
  ⟨s.tokens.map (Token.relocate f), s.fault.map (LexicalFault.relocate f)⟩

def Nesting.relocate (f : Nat → Nat) (n : Nesting) : Nesting :=
  { n with enclosures := n.enclosures.map fun enclosure => ⟨f enclosure.index, enclosure.waiting⟩ }

def Context.relocate (f : Nat → Nat) (c : Context) : Context :=
  { c with previous := c.previous.map (Item.relocate f), nesting := c.nesting.relocate f }

/-! ## Checks hand places on -/

section

variable (f : Nat → Nat)

namespace Item

theorem foreign_relocate (g : Grammar) (item : Item) :
    (item.relocate f).foreign g = (item.foreign g).map (GrammarFault.relocate f) := by
  obtain ⟨role, ⟨word, _⟩⟩ := item
  cases g with
  | arithmetic => rfl
  | boolean =>
      cases word with
      | number n => rfl
      | _ =>
          simp only [foreign, relocate, Token.relocate,
            apply_ite (Option.map (GrammarFault.relocate f))]
          rfl

theorem crampedBefore_relocate (item : Item) :
    (item.relocate f).crampedBefore = item.crampedBefore.map (GrammarFault.relocate f) := by
  rw [crampedBefore, crampedBefore, apply_ite (Option.map (GrammarFault.relocate f))]
  rfl

theorem crampedAfter_relocate (item : Item) :
    (item.relocate f).crampedAfter = item.crampedAfter.map (GrammarFault.relocate f) := by
  rw [crampedAfter, crampedAfter, apply_ite (Option.map (GrammarFault.relocate f))]
  rfl

theorem misplaced_relocate (previous : Option Item) (item : Item) :
    (item.relocate f).misplaced (previous.map (relocate f)) =
      (item.misplaced previous).map (GrammarFault.relocate f) := by
  cases previous with
  | none =>
      simp only [misplaced, Option.map_none, apply_ite (Option.map (GrammarFault.relocate f))]
      rfl
  | some before =>
      simp only [misplaced, relocate, Option.map_some,
        apply_ite (Option.map (GrammarFault.relocate f))]
      rfl

end Item

theorem Nesting.step_relocate (n : Nesting) (index : Nat) (role : Role) :
    (n.relocate f).step (f index) role = (n.step index role).map (Nesting.relocate f) := by
  obtain ⟨enclosures, outer, waiting⟩ := n
  cases role with
  | closing => cases enclosures <;> rfl
  | _ => rfl

theorem Nesting.depth_relocate (n : Nesting) : (n.relocate f).depth = n.depth := by
  simp [Nesting.depth, Nesting.relocate]

namespace Context

variable (c : Context)

theorem role_relocate : (c.relocate f).previous.map Item.role = c.previous.map Item.role := by
  cases h : c.previous <;> simp [relocate, Item.relocate, h]

theorem item_relocate (token : Token) :
    (c.relocate f).item (token.relocate f) = (c.item token).relocate f := by
  unfold item
  rw [role_relocate]
  rfl

theorem misnested_relocate (item : Item) :
    (c.relocate f).misnested (item.relocate f) =
      (c.misnested item).map (GrammarFault.relocate f) := by
  have step := c.nesting.step_relocate f item.index item.role
  change (c.relocate f).nesting.step (item.relocate f).index (item.relocate f).role = _ at step
  unfold misnested
  rw [step]
  cases c.nesting.step item.index item.role with
  | none => rfl
  | some nesting =>
      simp only [Option.map_some, nesting.depth_relocate f]
      split <;> rfl

theorem overlong_relocate (item : Item) :
    (c.relocate f).overlong (item.relocate f) =
      (c.overlong item).map (GrammarFault.relocate f) := by
  rw [overlong, overlong, apply_ite (Option.map (GrammarFault.relocate f))]
  rfl

theorem unfit_relocate (item : Item) :
    (c.relocate f).unfit (item.relocate f) = (c.unfit item).map (GrammarFault.relocate f) := by
  have foreign := item.foreign_relocate f c.grammar
  have placed := item.misplaced_relocate f c.previous
  change (item.relocate f).foreign (c.relocate f).grammar = _ at foreign
  change (item.relocate f).misplaced (c.relocate f).previous = _ at placed
  simp only [unfit, foreign, placed, item.crampedBefore_relocate, misnested_relocate,
    overlong_relocate, Option.map_or]

theorem cramped_relocate :
    (c.relocate f).previous.bind Item.crampedAfter =
      (c.previous.bind Item.crampedAfter).map (GrammarFault.relocate f) := by
  cases h : c.previous <;> simp [relocate, h, Item.crampedAfter_relocate]

theorem objection_relocate (token : Token) :
    (c.relocate f).objection (token.relocate f) =
      (c.objection token).map (GrammarFault.relocate f) := by
  simp only [objection, cramped_relocate, item_relocate, unfit_relocate, Option.map_or]

theorem advance_relocate (token : Token) :
    (c.relocate f).advance (token.relocate f) = (c.advance token).relocate f := by
  have step := c.nesting.step_relocate f (c.item token).index (c.item token).role
  simp only [advance, item_relocate]
  change Context.mk c.grammar (some ((c.item token).relocate f))
    ((((c.nesting.relocate f).step (f (c.item token).index) (c.item token).role)).getD
      (c.nesting.relocate f)) _ = _
  rw [step]
  cases c.nesting.step (c.item token).index (c.item token).role <;> rfl

theorem unfinished_relocate (length : Nat) :
    (c.relocate f).unfinished (f length) =
      (c.unfinished length).map (GrammarFault.relocate f) := by
  cases h : c.previous with
  | none => simp [unfinished, relocate, h, GrammarFault.relocate]
  | some last =>
      simp only [unfinished, relocate, Nesting.relocate, Item.relocate, h, Option.map_some,
        apply_ite (Option.map (GrammarFault.relocate f)), List.head?_map, Option.map_map]
      rfl

theorem ending_relocate (length : Nat) (fault : Option LexicalFault) :
    (c.relocate f).ending (f length) (fault.map (LexicalFault.relocate f)) =
      (c.ending length fault).map (Diagnostic.relocate f) := by
  simp only [ending, cramped_relocate, unfinished_relocate, Option.map_or, Option.map_map]
  rfl

/-- Where places are counted otherwise, those of the first fault are. -/
theorem verdict_relocate (length : Nat) (fault : Option LexicalFault) (tokens : List Token) :
    (c.relocate f).verdict (f length) (fault.map (LexicalFault.relocate f))
        (tokens.map (Token.relocate f)) =
      (c.verdict length fault tokens).map (Diagnostic.relocate f) := by
  induction tokens generalizing c with
  | nil => exact c.ending_relocate f length fault
  | cons token rest ih =>
      rw [List.map_cons, verdict, verdict, objection_relocate, advance_relocate, ih]
      cases c.objection token <;> rfl

end Context

/-! ## Scans hand places on -/

theorem Scan.cons_relocate (token : Token) (s : Scan) :
    (s.cons token).relocate f = (s.relocate f).cons (token.relocate f) := rfl

theorem Scan.append_relocate (s t : Scan) :
    (s.append t).relocate f = (s.relocate f).append (t.relocate f) := by
  cases h : s.fault <;> simp [Scan.append, Scan.relocate, h]

end

namespace Lexeme

section

variable (p : Punctuation) (index : Nat) (c : Char) (rest : List Char)

/-- The fault of a lexeme is found in it, whatever stands before. -/
theorem read_eq_relocate :
    read p index c rest = (read p 0 c rest).mapError (LexicalFault.relocate (index + ·)) := by
  unfold read
  split
  · simp only [readNumber]
    split
    · rfl
    · cases Decimal.read (c :: rest.takeWhile Char.isDigit) <;> rfl
  · split
    · simp only [readName_eq]
      split
      · rw [Nat.zero_add]
        rfl
      · rfl
    · split
      · rfl
      · split
        · rfl
        · cases Sign.leading? c rest with
          | some sign => rfl
          | none =>
              simp only [LexicalFault.ofChar]
              split <;> rfl

variable {p index c rest}

/-- A fault is at a character of its lexeme, so inside the text. -/
theorem index_le_of_read {cause : LexicalFault} (h : read p 0 c rest = .error cause) :
    cause.index ≤ rest.length := by
  unfold read at h
  split at h
  · simp only [readNumber] at h
    split at h
    · cases h
      exact Nat.zero_le _
    · split at h <;> cases h
      exact Nat.zero_le _
  · split at h
    · simp only [readName_eq] at h
      split at h <;> cases h
      rw [LexicalFault.index, Nat.zero_add]
      exact (List.takeWhile_prefix _).length_le
    · split at h
      · cases h
      · split at h
        · cases h
        · split at h <;> cases h
          rw [LexicalFault.index_ofChar]
          exact Nat.zero_le _

end

/-- A lexeme is read anywhere as it is read here. -/
theorem read_anywhere {p : Punctuation} {index : Nat} {c : Char} {rest : List Char} {l : Lexeme}
    (h : read p index c rest = .ok l) (other : Nat) : read p other c rest = .ok l := by
  rw [read_eq_relocate] at h ⊢
  cases read : read p 0 c rest with
  | error cause => rw [read] at h; cases h
  | ok found => rw [read] at h; cases h; rfl

end Lexeme

namespace Scan

/-- Two places are the same for the text that follows them, if counting on from them is. -/
def Parallel (f f' : Nat → Nat) (i i' : Nat) (cs : List Char) : Prop :=
  ∀ k ≤ cs.length, f (i + k) = f' (i' + k)

theorem Parallel.past {f f' : Nat → Nat} {o o' : Offset} {cs ds : List Char}
    (h : Parallel f f' o.chars o'.chars (cs ++ ds)) :
    Parallel f f' (o.past cs).chars (o'.past cs).chars ds := by
  intro k le
  have counted := h (cs.length + k) (by rw [List.length_append]; omega)
  simpa [Offset.past, Nat.add_assoc] using counted

/-- A text is scanned alike wherever it stands. -/
theorem scanFrom_relocate (p : Punctuation) {f f' : Nat → Nat} (o o' : Offset) (spaced : Bool)
    (cs : List Char) (same : Parallel f f' o.chars o'.chars cs) :
    (scanFrom p o spaced 0 cs).relocate f = (scanFrom p o' spaced 0 cs).relocate f' := by
  induction o, spaced, cs using scan_induction (p := p) generalizing o' with
  | nil o spaced => simp [scanFrom_nil, relocate]
  | blank o spaced c rest white ih =>
      rw [scanFrom_blank p o spaced white, scanFrom_blank p o' spaced white]
      have further : Parallel f f' o.chars o'.chars ([c] ++ rest) := same
      exact ih (o'.past [c]) further.past
  | fault o spaced c rest cause solid read =>
      rw [Lexeme.read_eq_relocate] at read
      cases first : Lexeme.read p 0 c rest with
      | ok l => rw [first] at read; cases read
      | error fault =>
          have read' : Lexeme.read p o'.chars c rest =
              .error (fault.relocate (o'.chars + ·)) := by
            rw [Lexeme.read_eq_relocate, first]
            rfl
          rw [first] at read
          cases read
          rw [scanFrom_fault p o spaced solid (by rw [Lexeme.read_eq_relocate, first]; rfl),
            scanFrom_fault p o' spaced solid read']
          have inside := Lexeme.index_le_of_read first
          have here : (f ∘ (o.chars + ·)) fault.index = (f' ∘ (o'.chars + ·)) fault.index :=
            same fault.index (by rw [List.length_cons]; omega)
          simp only [relocate, List.map_nil, Option.map_some, LexicalFault.relocate_relocate]
          rw [LexicalFault.relocate_congr here]
  | lexeme o spaced c l behind solid read ih =>
      have cut : c :: (l.tail ++ behind) = (c :: l.tail) ++ behind := rfl
      rw [cut] at same
      have first := same 0 (Nat.zero_le _)
      have last := same.past 0 (Nat.zero_le _)
      rw [scanFrom_lexeme_append spaced solid read,
        scanFrom_lexeme_append spaced solid (Lexeme.read_anywhere read o'.chars), cons_relocate,
        cons_relocate, ih _ same.past]
      simp only [Nat.add_zero] at first last
      simp only [place, Token.relocate, first, last]

end Scan

/-! ## Trees hand words on -/

/-- What a token is for a tree. -/
def Item.key (item : Item) : Role × Word := (item.role, item.token.word)

/-- The token before a word only tells whether an operand is due. -/
theorem Role.ofWord_congr {previous previous' : Option Role}
    (waiting : previous.all needsRight = previous'.all needsRight) (word : Word) :
    ofWord previous word = ofWord previous' word := by
  cases word <;> simp only [ofWord, waiting]

/-- The roles of tokens come from their words. -/
theorem Item.keys_congr {previous previous' : Option Role} {tokens tokens' : List Token}
    (waiting : previous.all Role.needsRight = previous'.all Role.needsRight)
    (words : tokens.map Token.word = tokens'.map Token.word) :
    (Item.inOrder previous tokens).map Item.key = (Item.inOrder previous' tokens').map Item.key := by
  induction tokens generalizing previous previous' tokens' with
  | nil =>
      rw [List.map_nil, eq_comm, List.map_eq_nil_iff] at words
      subst words
      rfl
  | cons token rest ih =>
      rw [List.map_cons, eq_comm, List.map_eq_cons_iff] at words
      obtain ⟨token', rest', rfl, word, words⟩ := words
      have role := Role.ofWord_congr waiting token.word
      simp only [inOrder, List.map_cons, key, role, word]
      rw [ih rfl words.symm]

namespace Layered

/-- When operators stay and every leaf is replaced by an expression that needs no parentheses, the
tree is that of the new leaves. -/
theorem replace {g : Role × Word → List (Role × Word)} {h : Expr → Expr}
    (stays : ∀ key, key.1 ≠ .value → g key = [key])
    (leaf : ∀ word e, word.leaf? = some e → ∀ items : List Item,
      items.map Item.key = g (.value, word) → Layered 7 items (h e))
    (unary : ∀ op e, h (.unary op e) = .unary op (h e))
    (binary : ∀ op l r, h (.binary op l r) = .binary op (h l) (h r))
    {k : Nat} {items : List Item} {e : Expr} (layered : Layered k items e) {items' : List Item}
    (keys : items'.map Item.key = (items.map Item.key).flatMap g) : Layered k items' (h e) := by
  have alone {item : Item} {items' : List Item} (operator : item.role ≠ .value)
      (eq : items'.map Item.key = g item.key) :
      ∃ item', items' = [item'] ∧ item'.role = item.role := by
    rw [stays item.key operator, List.map_eq_singleton_iff] at eq
    obtain ⟨item', rfl, same⟩ := eq
    exact ⟨item', rfl, congrArg Prod.fst same⟩
  induction layered generalizing items' with
  | operation layer role _ _ ih_left ih_right =>
      rw [List.map_append, List.map_cons, List.flatMap_append, List.flatMap_cons] at keys
      obtain ⟨ls', rest, rfl, left, keys⟩ := List.map_eq_append_iff.1 keys
      obtain ⟨middle, rs', rfl, mid, right⟩ := List.map_eq_append_iff.1 keys
      obtain ⟨item', rfl, role'⟩ := alone (by simp [role]) mid
      rw [binary]
      exact .operation layer (role'.trans role) (ih_left left) (ih_right right)
  | tighter bound _ ih => exact .tighter bound (ih keys)
  | unary role _ ih =>
      rw [List.map_cons, List.flatMap_cons] at keys
      obtain ⟨first, rest, rfl, head, tail⟩ := List.map_eq_append_iff.1 keys
      obtain ⟨item', rfl, role'⟩ := alone (by simp [role]) head
      rw [unary]
      exact .unary (role'.trans role) (ih tail)
  | @leaf item e role word =>
      rw [List.map_singleton, List.flatMap_singleton] at keys
      refine leaf item.token.word e word items' ?_
      rw [keys, Item.key, role]
  | enclosed opening closing _ ih =>
      rw [List.map_append, List.map_cons, List.map_singleton, List.flatMap_append,
        List.flatMap_cons, List.flatMap_singleton] at keys
      obtain ⟨front, last, rfl, lead, tail⟩ := List.map_eq_append_iff.1 keys
      obtain ⟨first, inner, rfl, head, middle⟩ := List.map_eq_append_iff.1 lead
      obtain ⟨opener, rfl, opening'⟩ := alone (by simp [opening]) head
      obtain ⟨closer, rfl, closing'⟩ := alone (by simp [closing]) tail
      exact .enclosed (opening'.trans opening) (closing'.trans closing) (ih middle)

/-- A tree is that of the roles and words of its tokens. -/
theorem congr {k : Nat} {items items' : List Item} {e : Expr} (layered : Layered k items e)
    (keys : items'.map Item.key = items.map Item.key) : Layered k items' e := by
  refine layered.replace (g := fun key => [key]) (h := id) (fun _ _ => rfl) ?_ (fun _ _ => rfl)
    (fun _ _ _ => rfl) (by rw [keys]; simp)
  intro word e known items eq
  obtain ⟨item, rfl, same⟩ := List.map_eq_singleton_iff.1 eq
  have role : item.role = .value := congrArg Prod.fst same
  have named : item.token.word = word := congrArg Prod.snd same
  exact .leaf role (named ▸ known)

end Layered

end Criterion
