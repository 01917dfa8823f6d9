/-
# Criterion.Proofs.Readability — a written tree can be read in one way

A tree is written with parentheses around every operation, white space around every binary operator
and none anywhere else. What stands between these, its words, are the leaves and the operators
(`Expr.inWord`). Behind the opening parenthesis of an operation comes a word: if white space ends
it, it is the left operand of a binary operator, and if a parenthesis does, the operator of a unary
one, be it alone or together with an operand that is a leaf. With no word there at all the operation
is binary. So where an operand ends can be seen (`Expr.chars_append_inj`) and no two trees have one
text, though names may hold `-` or any other operator, and though `-5` is one leaf and `(-5)` is not.

All this takes that names do not look like anything else (`Legible`), which those that are found in
a text do not (`Formula.legible_of_compile`).
-/
import Criterion.CommandLine
import Criterion.Proofs.InOrder
import Criterion.Proofs.Spelling

namespace Criterion

set_option autoImplicit false

/-- A name that nothing else in a written tree can be taken for. -/
structure Legible (name : String) : Prop where
  starts : ∃ c rest, name.toList = c :: rest ∧ Lexeme.startsName c = true
  solid : ∀ c ∈ name.toList, Text.isBlank c = false ∧ c ≠ '(' ∧ c ≠ ')'
  ne_true : name ≠ "true"
  ne_false : name ≠ "false"

namespace Expr

/-- Each variable of the tree has such a name. -/
def Legible (e : Expr) : Prop := ∀ name ∈ e.names, Criterion.Legible name

/-! ## Words -/

/-- The characters between which nothing in a written tree ends. -/
def inWord (c : Char) : Bool := !([' ', '(', ')'].contains c)

theorem inWord_iff {c : Char} : inWord c = true ↔ c ≠ ' ' ∧ c ≠ '(' ∧ c ≠ ')' := by
  simp [inWord]

/-- A word ends at the first character that is in none. -/
theorem word_append_inj {xs ys : List Char} {b d : Char} {bs ds : List Char}
    (first : ∀ c ∈ xs, inWord c = true) (second : ∀ c ∈ ys, inWord c = true)
    (ends : inWord b = false) (ends' : inWord d = false) (h : xs ++ b :: bs = ys ++ d :: ds) :
    xs = ys ∧ b :: bs = d :: ds := by
  have stop : ∀ c, (b :: bs).head? = some c → inWord c = false := by
    rintro c ⟨⟩
    exact ends
  have stop' : ∀ c, (d :: ds).head? = some c → inWord c = false := by
    rintro c ⟨⟩
    exact ends'
  constructor
  · rw [← Lexeme.takeWhile_append_eq_left_iff.2 ⟨first, stop⟩, h,
      Lexeme.takeWhile_append_eq_left_iff.2 ⟨second, stop'⟩]
  · rw [← Lexeme.dropWhile_append_of_run first stop, h,
      Lexeme.dropWhile_append_of_run second stop']

theorem inWord_of_mem_unary (op : UnaryOp) : ∀ c ∈ op.text.toList, inWord c = true := by
  apply List.all_eq_true.1
  cases op <;> decide

theorem inWord_of_mem_binary (op : BinaryOp) : ∀ c ∈ op.text.toList, inWord c = true := by
  apply List.all_eq_true.1
  cases op <;> decide

/-! ## Leaves -/

def isLeaf : Expr → Bool
  | number _ | bool _ | var _ => true
  | unary _ _ | binary _ _ _ => false

/-- The leaf that is written so. -/
def leafOf (cs : List Char) : Expr :=
  match Decimal.read cs, Tier.readBool cs with
  | some n, _ => number n
  | none, some b => bool b
  | none, none => var (String.ofList cs)

theorem read_of_legible {name : String} (legible : Criterion.Legible name) :
    Decimal.read name.toList = none := by
  obtain ⟨c, rest, written, starts⟩ := legible.starts
  have digit := Lexeme.isDigit_of_startsName starts
  have letters : Decimal.unsigned (c :: rest) = none := by
    simp [Decimal.unsigned, digit]
  rw [written, Decimal.read, Decimal.signed, letters]
  · rfl
  · rintro ds ⟨⟩
    cases starts
  · rintro ds ⟨⟩
    cases starts

theorem readBool_of_legible {name : String} (legible : Criterion.Legible name) :
    Tier.readBool name.toList = none := by
  have ne_true : name.toList ≠ "true".toList := fun same =>
    legible.ne_true (String.toList_inj.1 same)
  have ne_false : name.toList ≠ "false".toList := fun same =>
    legible.ne_false (String.toList_inj.1 same)
  rw [Tier.readBool, if_neg ne_true, if_neg ne_false]

/-- A leaf is known by its text. -/
theorem leafOf_chars {e : Expr} (legible : e.Legible) (leaf : e.isLeaf = true) :
    leafOf e.chars = e := by
  cases e with
  | number n =>
      show leafOf (Decimal.write n) = number n
      rw [leafOf, Decimal.read_write]
  | bool b => cases b <;> rfl
  | var name =>
      have named := legible name (.head _)
      show leafOf name.toList = var name
      rw [leafOf, read_of_legible named, readBool_of_legible named, String.ofList_toList]
  | unary | binary => cases leaf

/-- A leaf is a word. -/
theorem inWord_of_mem_leaf {e : Expr} (legible : e.Legible) (leaf : e.isLeaf = true) :
    ∀ c ∈ e.chars, inWord c = true := by
  cases e with
  | number n =>
      obtain ⟨ds, _, digits, sign⟩ := Decimal.isNumeral_write n
      have inside : ∀ c ∈ ds, inWord c = true := by
        intro c mem
        rw [inWord_iff]
        refine ⟨?_, ?_, ?_⟩ <;> rintro rfl <;> cases digits _ mem
      show ∀ c ∈ Decimal.write n, inWord c = true
      rcases sign with written | written <;> rw [written]
      · exact inside
      · exact List.forall_mem_cons.2 ⟨by decide, inside⟩
  | bool b =>
      apply List.all_eq_true.1
      cases b <;> decide
  | var name =>
      intro c mem
      obtain ⟨blank, opening, closing⟩ := (legible name (.head _)).solid c mem
      refine inWord_iff.2 ⟨?_, opening, closing⟩
      rintro rfl
      cases blank
  | unary | binary => cases leaf

theorem chars_ne_nil_of_leaf {e : Expr} (legible : e.Legible) (leaf : e.isLeaf = true) :
    e.chars ≠ [] := by
  cases e with
  | number n =>
      obtain ⟨ds, some_digit, _, sign⟩ := Decimal.isNumeral_write n
      show Decimal.write n ≠ []
      rcases sign with written | written <;> rw [written]
      · exact some_digit
      · exact List.cons_ne_nil _ _
  | bool b => cases b <;> decide
  | var name =>
      obtain ⟨c, rest, written, _⟩ := (legible name (.head _)).starts
      show name.toList ≠ []
      rw [written]
      exact List.cons_ne_nil _ _
  | unary | binary => cases leaf

/-! ## Operations -/

theorem isLeaf_or_open (e : Expr) : e.isLeaf = true ∨ ∃ rest, e.chars = '(' :: rest := by
  cases e with
  | number | bool | var => exact .inl rfl
  | unary op operand => exact .inr ⟨_, rfl⟩
  | binary op left right => exact .inr ⟨_, rfl⟩

theorem chars_unary_append (op : UnaryOp) (operand : Expr) (rest : List Char) :
    (unary op operand).chars ++ rest =
      '(' :: (op.text.toList ++ (operand.chars ++ ')' :: rest)) := by
  show '(' :: op.text.toList ++ operand.chars ++ [')'] ++ rest = _
  simp

theorem chars_binary_append (op : BinaryOp) (left right : Expr) (rest : List Char) :
    (binary op left right).chars ++ rest =
      '(' :: (left.chars ++ ' ' :: (op.text.toList ++ ' ' :: (right.chars ++ ')' :: rest))) := by
  show '(' :: left.chars ++ ' ' :: op.text.toList ++ ' ' :: right.chars ++ [')'] ++ rest = _
  simp

section

variable {e f : Expr} {b d : Char} {xs ys : List Char}

/-- The first word of a unary operation holds its operator and is not ended by white space. -/
theorem exists_word_of_unary (op : UnaryOp) (legible : e.Legible) (xs : List Char) :
    ∃ w c rest, op.text.toList ++ (e.chars ++ ')' :: xs) = w ++ c :: rest ∧
      (∀ k ∈ w, inWord k = true) ∧ w ≠ [] ∧ inWord c = false ∧ c ≠ ' ' := by
  have sign := inWord_of_mem_unary op
  have written : op.text.toList ≠ [] := by cases op <;> decide
  rcases e.isLeaf_or_open with leaf | ⟨rest, opens⟩
  · refine ⟨op.text.toList ++ e.chars, ')', xs, (List.append_assoc ..).symm, ?_, ?_, by decide,
      by decide⟩
    · exact List.forall_mem_append.2 ⟨sign, inWord_of_mem_leaf legible leaf⟩
    · exact List.append_ne_nil_of_left_ne_nil written _
  · refine ⟨op.text.toList, '(', rest ++ ')' :: xs, ?_, sign, written, by decide, by decide⟩
    rw [opens, List.cons_append]

/-- The first word of a binary operation is ended by white space, if there is one. -/
theorem exists_word_of_binary (legible : e.Legible) (xs : List Char) :
    ∃ w c rest, e.chars ++ ' ' :: xs = w ++ c :: rest ∧
      (∀ k ∈ w, inWord k = true) ∧ inWord c = false ∧ (w ≠ [] → c = ' ') := by
  rcases e.isLeaf_or_open with leaf | ⟨rest, opens⟩
  · exact ⟨e.chars, ' ', xs, rfl, inWord_of_mem_leaf legible leaf, by decide, fun _ => rfl⟩
  · refine ⟨[], '(', rest ++ ' ' :: xs, ?_, by simp, by decide, fun some => absurd rfl some⟩
    rw [opens]
    rfl

/-- So no text is that of a unary operation and of a binary one. -/
theorem unary_ne_binary {op : UnaryOp} (legible : e.Legible) (legible' : f.Legible) :
    op.text.toList ++ (e.chars ++ ')' :: xs) ≠ f.chars ++ ' ' :: ys := by
  intro h
  obtain ⟨w, c, rest, unary, word, some, ends, solid⟩ := exists_word_of_unary op legible xs
  obtain ⟨w', c', rest', binary, word', ends', blank⟩ := exists_word_of_binary legible' ys
  rw [unary, binary] at h
  obtain ⟨rfl, same⟩ := word_append_inj word word' ends ends' h
  obtain ⟨rfl, _⟩ := List.cons.inj same
  exact solid (blank some)

/-- Of a leaf and another tree a text begins with one. -/
theorem chars_append_inj_of_leaf (legible : e.Legible) (legible' : f.Legible)
    (leaf : e.isLeaf = true) (ends : inWord b = false) (ends' : inWord d = false)
    (h : e.chars ++ b :: xs = f.chars ++ d :: ys) : e = f ∧ b :: xs = d :: ys := by
  have word := inWord_of_mem_leaf legible leaf
  rcases f.isLeaf_or_open with leaf' | ⟨rest, opens⟩
  · obtain ⟨same, behind⟩ :=
      word_append_inj word (inWord_of_mem_leaf legible' leaf') ends ends' h
    refine ⟨?_, behind⟩
    rw [← leafOf_chars legible leaf, same, leafOf_chars legible' leaf']
  · have bare : e.chars ++ b :: xs = [] ++ '(' :: (rest ++ d :: ys) := by
      rw [h, opens]
      rfl
    obtain ⟨none, _⟩ := word_append_inj word (by simp) ends (by decide) bare
    exact absurd none (chars_ne_nil_of_leaf legible leaf)

theorem chars_append_inj_of_leaf_right (legible : e.Legible) (legible' : f.Legible)
    (leaf : f.isLeaf = true) (ends : inWord b = false) (ends' : inWord d = false)
    (h : e.chars ++ b :: xs = f.chars ++ d :: ys) : e = f ∧ b :: xs = d :: ys := by
  obtain ⟨same, behind⟩ := chars_append_inj_of_leaf legible' legible leaf ends' ends h.symm
  exact ⟨same.symm, behind.symm⟩

/-- Where a tree is written the text tells which one it is and where it ends. -/
theorem chars_append_inj (legible : e.Legible) (legible' : f.Legible) (ends : inWord b = false)
    (ends' : inWord d = false) (h : e.chars ++ b :: xs = f.chars ++ d :: ys) :
    e = f ∧ b :: xs = d :: ys := by
  have blank : inWord ' ' = false := by decide
  have closes : inWord ')' = false := by decide
  induction e generalizing f b d xs ys with
  | number n => exact chars_append_inj_of_leaf legible legible' rfl ends ends' h
  | bool v => exact chars_append_inj_of_leaf legible legible' rfl ends ends' h
  | var name => exact chars_append_inj_of_leaf legible legible' rfl ends ends' h
  | unary op operand ih =>
      cases f with
      | number | bool | var =>
          exact chars_append_inj_of_leaf_right legible legible' rfl ends ends' h
      | unary op' operand' =>
          rw [chars_unary_append, chars_unary_append] at h
          obtain ⟨signs, inner⟩ := List.append_inj (List.cons.inj h).2
            (op.length_text.trans op'.length_text.symm)
          have legible' : operand'.Legible := legible'
          obtain ⟨rfl, behind⟩ := ih legible legible' closes closes inner
          rw [UnaryOp.eq_of_text_eq (String.toList_inj.1 signs)]
          exact ⟨rfl, (List.cons.inj behind).2⟩
      | binary op' left right =>
          rw [chars_unary_append, chars_binary_append] at h
          obtain ⟨first, _⟩ := List.forall_mem_append.1 legible'
          exact absurd (List.cons.inj h).2 (unary_ne_binary legible first)
  | binary op left right ih_left ih_right =>
      obtain ⟨first, second⟩ := List.forall_mem_append.1 legible
      cases f with
      | number | bool | var =>
          exact chars_append_inj_of_leaf_right legible legible' rfl ends ends' h
      | unary op' operand =>
          rw [chars_binary_append, chars_unary_append] at h
          exact absurd (List.cons.inj h).2.symm (unary_ne_binary legible' first)
      | binary op' left' right' =>
          obtain ⟨first', second'⟩ := List.forall_mem_append.1 legible'
          rw [chars_binary_append, chars_binary_append] at h
          obtain ⟨rfl, middle⟩ := ih_left first first' blank blank (List.cons.inj h).2
          obtain ⟨signs, last⟩ := word_append_inj (inWord_of_mem_binary op)
            (inWord_of_mem_binary op') blank blank (List.cons.inj middle).2
          obtain ⟨rfl, behind⟩ := ih_right second second' closes closes (List.cons.inj last).2
          rw [BinaryOp.eq_of_text_eq (String.toList_inj.1 signs)]
          exact ⟨rfl, (List.cons.inj behind).2⟩

theorem eq_of_text_eq (legible : e.Legible) (legible' : f.Legible) (h : e.text = f.text) :
    e = f := by
  have closed : e.chars ++ [')'] = f.chars ++ [')'] := by rw [String.ofList_injective h]
  exact (chars_append_inj legible legible' (by decide) (by decide) closed).1

end

end Expr

/-! ## Texts that are checked -/

/-- A name that is a lexeme of its own looks like nothing else. -/
theorem Lexeme.legible_of_whole {p : Punctuation} {name : String}
    (whole : Whole p name.toList (.name name)) : Legible name := by
  obtain ⟨c, tail, written, blank, read⟩ := whole
  have starts := startsName_of_read read rfl
  obtain ⟨word, run⟩ := word_of_read read starts
  rw [← written] at word
  refine ⟨⟨c, tail, written, starts⟩, ?_, ?_, ?_⟩
  · rw [written]
    refine List.forall_mem_cons.2 ⟨⟨blank, ?_, ?_⟩, fun d mem => ?_⟩
    · rintro rfl
      cases starts
    · rintro rfl
      cases starts
    · have goes_on : continuesName p d = true := List.takeWhile_eq_self_iff.1 run.symm d mem
      refine ⟨Lexeme.solid read d mem, ?_, ?_⟩
      · rintro rfl
        cases goes_on.symm.trans (stops_of_paren p (by decide)).name
      · rintro rfl
        cases goes_on.symm.trans (stops_of_paren p (by decide)).name
  · rintro rfl
    cases word
  · rintro rfl
    cases word

/-- The names that are found in a text look like nothing else in the tree of the text. -/
theorem Formula.legible_of_compile {g : Grammar} {p : Punctuation} {source : String} {f : Formula}
    (h : compile g p source = .ok f) : f.root.Legible := by
  intro name mem
  rw [names_of_compile h] at mem
  obtain ⟨token, found, named⟩ := List.mem_filterMap.1 mem
  have word := Word.name?_eq_some_iff.1 named
  exact Lexeme.legible_of_whole (Scan.whole_of_mem .zero true source.toList token found name word)

namespace Expr

/-- Two trees are written alike only if they are the same, provided that their names look like
nothing else. The trees of texts have such names, so what a run that checks writes tells which tree
it found, whatever the texts, tiers and punctuation. -/
theorem text_eq_iff :
    (∀ e f : Expr, e.Legible → f.Legible → (e.text = f.text ↔ e = f)) ∧
    ∀ (o o' : CommandLine.Options) (text text' : String), o.check = true → o'.check = true →
      CommandLine.run o = .ok text → CommandLine.run o' = .ok text' →
      ∃ f f' : Formula, Formula.compile o.tier.grammar o.punctuation o.expression = .ok f ∧
        Formula.compile o'.tier.grammar o'.punctuation o'.expression = .ok f' ∧
        (text = text' ↔ f.root = f'.root) := by
  have distinct (e f : Expr) (legible : e.Legible) (legible' : f.Legible) :
      e.text = f.text ↔ e = f :=
    ⟨eq_of_text_eq legible legible', congrArg text⟩
  refine ⟨distinct, fun o o' text text' check check' written written' => ?_⟩
  obtain ⟨f, compiled, rfl⟩ := (CommandLine.run_eq_ok_iff_of_check check).1 written
  obtain ⟨f', compiled', rfl⟩ := (CommandLine.run_eq_ok_iff_of_check check').1 written'
  exact ⟨f, f', compiled, compiled', distinct _ _ (Formula.legible_of_compile compiled)
    (Formula.legible_of_compile compiled')⟩

/-- The negation of 5 and the literal -5, as trees and as they are found and written. -/
theorem text_eq_iff_negation :
    (unary .negate (number 5)).text ≠ (number (-5)).text ∧
      CommandLine.run ⟨"-(5)", .condition, .standard, [], true, 0⟩ = .ok "(-5)" ∧
      CommandLine.run ⟨"(-5)", .integer, .standard, ["a"], true, 0⟩ = .ok "-5" ∧
      ∃ f f' : Formula, Formula.compile .arithmetic .standard "-(5)" = .ok f ∧
        Formula.compile .arithmetic .standard "(-5)" = .ok f' ∧ f.root ≠ f'.root := by
  have negation : CommandLine.run ⟨"-(5)", .condition, .standard, [], true, 0⟩ = .ok "(-5)" :=
    (CommandLine.run_eq_ok_iff_of_check rfl).2
      ⟨⟨"-(5)", unary .negate (number 5)⟩, Formula.eq_ok_of_toOption (by decide +kernel),
        by decide +kernel⟩
  have literal : CommandLine.run ⟨"(-5)", .integer, .standard, ["a"], true, 0⟩ = .ok "-5" :=
    (CommandLine.run_eq_ok_iff_of_check rfl).2
      ⟨⟨"(-5)", number (-5)⟩, Formula.eq_ok_of_toOption (by decide +kernel), by decide +kernel⟩
  obtain ⟨trees, runs⟩ := text_eq_iff
  have legible (n : Int32) : (number n).Legible := by simp [Legible, names]
  refine ⟨fun same => ?_, negation, literal, ?_⟩
  · cases (trees (unary .negate (number 5)) (number (-5)) (legible 5) (legible (-5))).1 same
  · obtain ⟨f, f', compiled, compiled', found⟩ := runs _ _ _ _ rfl rfl negation literal
    exact ⟨f, f', compiled, compiled', fun same => absurd (found.2 same) (by decide)⟩

end Expr

end Criterion
