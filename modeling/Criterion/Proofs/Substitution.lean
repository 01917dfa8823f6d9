/-
# Criterion.Proofs.Substitution — a formula in place of a name

A text may be written, in parentheses, for every name `x` of another one: `Formula.inlined` does so.
The parentheses keep the tokens of both texts what they were. Behind and before them stands no letter
that a lexeme could go on with, so every token is scanned as before (`Scan.scanFrom_splice`); what a
token may ask of its neighbours is settled, because a parenthesis takes the place that the name had
as an operand; and white space is asked for by binary operators alone, of which none is at an end of
the inner text.

So the tree is that of the outer text with the inner tree for `x` (`Layered.subst`), and all that can
go wrong is that the whole gets too deep or too long (`compile_inlined`).
-/
import Criterion.Proofs.Follow
import Criterion.Proofs.Fragment
import Mathlib.Data.List.Infix
import Mathlib.Logic.Function.Basic

namespace Criterion

set_option autoImplicit false

/-! ## Trees -/

namespace Expr

/-- The tree with `u` for every variable `x`. -/
def subst (e : Expr) (x : String) (u : Expr) : Expr :=
  match e with
  | number n => number n
  | bool b => bool b
  | var name => if name = x then u else var name
  | unary op operand => unary op (operand.subst x u)
  | binary op left right => binary op (left.subst x u) (right.subst x u)

/-- A variable that is replaced has the value of what replaces it. -/
theorem eval_subst (rule : TruthRule) (value : String → Option Int32) (x : String) (u e : Expr) :
    (e.subst x u).eval rule value =
      e.eval rule (Function.update value x (some (u.eval rule value))) := by
  induction e with
  | number | bool => rfl
  | var name =>
      by_cases same : name = x
      · subst same
        simp [subst, eval]
      · simp [subst, eval, same]
  | unary op operand ih => simp only [subst, eval, ih]
  | binary op left right ih_left ih_right => simp only [subst, eval, ih_left, ih_right]

/-- The same for truth values, where no operation counts its operands. -/
theorem holds_subst (value : String → Option Bool) (x : String) (u : Expr) {e : Expr}
    (logical : e.isLogical = true) :
    (e.subst x u).holds value = e.holds (Function.update value x (some (u.holds value))) := by
  induction e with
  | number => cases logical
  | bool => rfl
  | var name =>
      by_cases same : name = x
      · subst same
        simp [subst, holds]
      · simp [subst, holds, same]
  | unary op operand ih =>
      simp only [isLogical, Bool.and_eq_true, decide_eq_true_eq] at logical
      obtain ⟨rfl, inner⟩ := logical
      simp only [subst, holds, ih inner]
  | binary op left right ih_left ih_right =>
      simp only [isLogical, Bool.and_eq_true] at logical
      obtain ⟨⟨known, first⟩, second⟩ := logical
      cases op with
      | or | and | equal | unequal => simp only [subst, holds, ih_left first, ih_right second]
      | _ => cases known

end Expr

/-! ## Texts -/

namespace Scan

/-- The characters `cs` from `place` on, with `inner` in parentheses for each of the tokens. -/
def splice (inner : List Char) : Nat → List Token → List Char → List Char
  | _, [], cs => cs
  | place, token :: rest, cs =>
      cs.take (token.start.chars - place) ++ '(' :: (inner ++ ')' ::
        splice inner token.stop.chars rest (cs.drop (token.stop.chars - place)))

/-- The tokens that are the variable `x`. -/
def named (x : String) (tokens : List Token) : List Token :=
  tokens.filter fun token => token.word = .name x

theorem named_cons_self {x : String} {token : Token} (word : token.word = .name x)
    (rest : List Token) : named x (token :: rest) = token :: named x rest :=
  List.filter_cons_of_pos (decide_eq_true word)

theorem named_cons_of_ne {x : String} {token : Token} (word : token.word ≠ .name x)
    (rest : List Token) : named x (token :: rest) = named x rest :=
  List.filter_cons_of_neg (by simpa using word)

section

variable {p : Punctuation} {inner : List Char} {x : String}

/-- Tokens do not begin before the text does. -/
theorem start_le_of_mem (o : Offset) (spaced : Bool) (cs : List Char) :
    ∀ token ∈ (scanFrom p o spaced 0 cs).tokens,
      o.chars ≤ token.start.chars ∧ token.start.chars ≤ token.stop.chars :=
  forall_mem_scanFrom o spaced cs fun _ _ _ _ _ le _ _ => ⟨le, Nat.le_add_right ..⟩

/-- What stands before the tokens stays. -/
theorem splice_append {place : Nat} {tokens : List Token} (before cs : List Char)
    (behind : ∀ token ∈ tokens, place + before.length ≤ token.start.chars ∧
      token.start.chars ≤ token.stop.chars) :
    splice inner place tokens (before ++ cs) =
      before ++ splice inner (place + before.length) tokens cs := by
  cases tokens with
  | nil => rfl
  | cons token rest =>
      obtain ⟨first, last⟩ := behind token (.head _)
      have kept : (before ++ cs).take (token.start.chars - place) =
          before ++ cs.take (token.start.chars - (place + before.length)) := by
        rw [List.take_append, List.take_of_length_le (by omega)]
        congr 2
        omega
      have left : (before ++ cs).drop (token.stop.chars - place) =
          cs.drop (token.stop.chars - (place + before.length)) := by
        rw [List.drop_append, List.drop_of_length_le (by omega), List.nil_append]
        congr 1
        omega
      rw [splice, splice, kept, left, List.append_assoc]

/-- The text with `inner` for the names `x`. -/
abbrev spliced (p : Punctuation) (inner : List Char) (x : String) (o : Offset) (spaced : Bool)
    (cs : List Char) : List Char :=
  splice inner o.chars (named x (scanFrom p o spaced 0 cs).tokens) cs

theorem spliced_blank (o : Offset) (spaced : Bool) {c : Char} (white : Text.isBlank c = true)
    (rest : List Char) :
    spliced p inner x o spaced (c :: rest) = c :: spliced p inner x (o.past [c]) true rest := by
  unfold spliced
  rw [scanFrom_blank p o spaced white]
  refine splice_append [c] rest fun token mem => ?_
  exact start_le_of_mem (o.past [c]) true rest token (List.mem_of_mem_filter mem)

theorem spliced_self (o : Offset) (spaced : Bool) {c : Char} {l : Lexeme} {behind : List Char}
    (solid : Text.isBlank c = false)
    (read : Lexeme.read p o.chars c (l.tail ++ behind) = .ok l) (word : l.word = .name x) :
    spliced p inner x o spaced (c :: (l.tail ++ behind)) =
      '(' :: (inner ++ ')' :: spliced p inner x (o.past (c :: l.tail)) false behind) := by
  have all : c :: (l.tail ++ behind) = (c :: l.tail) ++ behind := rfl
  unfold spliced
  rw [scanFrom_lexeme_append spaced solid read]
  change splice inner o.chars (named x (_ :: _)) _ = _
  rw [named_cons_self word, splice, all]
  simp [place, Offset.past]

theorem spliced_of_ne (o : Offset) (spaced : Bool) {c : Char} {l : Lexeme} {behind : List Char}
    (solid : Text.isBlank c = false)
    (read : Lexeme.read p o.chars c (l.tail ++ behind) = .ok l) (word : l.word ≠ .name x) :
    spliced p inner x o spaced (c :: (l.tail ++ behind)) =
      c :: (l.tail ++ spliced p inner x (o.past (c :: l.tail)) false behind) := by
  have all : c :: (l.tail ++ behind) = (c :: l.tail) ++ behind := rfl
  unfold spliced
  rw [scanFrom_lexeme_append spaced solid read]
  change splice inner o.chars (named x (_ :: _)) _ = _
  rw [named_cons_of_ne word, all]
  refine splice_append (c :: l.tail) behind fun token mem => ?_
  exact start_le_of_mem (o.past (c :: l.tail)) false behind token (List.mem_of_mem_filter mem)

variable (p inner x) in
/-- Such a text begins as it did, or with a parenthesis where no white space was. -/
theorem head?_spliced (o : Offset) (spaced : Bool) (cs : List Char) :
    (spliced p inner x o spaced cs).head? = cs.head? ∨
      ((spliced p inner x o spaced cs).head? = some '(' ∧
        ∃ c, cs.head? = some c ∧ Text.isBlank c = false) := by
  cases o, spaced, cs using scan_induction (p := p) with
  | nil o spaced =>
      unfold spliced
      rw [scanFrom_nil]
      exact .inl rfl
  | blank o spaced c rest white ih =>
      rw [spliced_blank o spaced white]
      exact .inl rfl
  | fault o spaced c rest cause solid read =>
      unfold spliced
      rw [scanFrom_fault p o spaced solid read]
      exact .inl rfl
  | lexeme o spaced c l behind solid read ih =>
      by_cases word : l.word = .name x
      · rw [spliced_self o spaced solid read word]
        exact .inr ⟨rfl, c, rfl, solid⟩
      · rw [spliced_of_ne o spaced solid read word]
        exact .inl rfl

end

end Scan

/-! ## Their tokens -/

/-- The tokens of a text, and those that it has with a text of the tokens `inner`, of length `last`,
in parentheses for the names `x`. -/
inductive Token.Spliced (x : String) (inner : List Token) (last : Nat) :
    List Token → List Token → Prop where
  | nil : Spliced x inner last [] []
  | keep {token copy : Token} {rest copies : List Token} :
      token.word ≠ .name x → copy.word = token.word → copy.spacedBefore = token.spacedBefore →
      copy.spacedAfter = token.spacedAfter → Spliced x inner last rest copies →
      Spliced x inner last (token :: rest) (copy :: copies)
  | replace {token opener closer : Token} {carried rest copies : List Token} :
      token.word = .name x → opener.word = .openParen → closer.word = .closeParen →
      List.Forall₂ (Token.Carried 1 last) inner carried → Spliced x inner last rest copies →
      Spliced x inner last (token :: rest) (opener :: carried ++ closer :: copies)

theorem Scan.scanFrom_spliced {p : Punctuation} {inner : List Char} (x : String)
    (clean : (scanFrom p .zero true 0 inner).fault = none) (o : Offset) (spaced : Bool)
    (cs : List Char) (readable : (scanFrom p o spaced 0 cs).fault = none) (o' : Offset) :
    ∃ copies, scanFrom p o' spaced 0 (spliced p inner x o spaced cs) = ⟨copies, none⟩ ∧
      Token.Spliced x (scanFrom p .zero true 0 inner).tokens inner.length
        (scanFrom p o spaced 0 cs).tokens copies := by
  induction o, spaced, cs using scan_induction (p := p) generalizing o' with
  | nil o spaced =>
      unfold spliced
      rw [scanFrom_nil]
      exact ⟨[], scanFrom_nil p o' spaced 0, .nil⟩
  | blank o spaced c rest white ih =>
      rw [spliced_blank o spaced white, scanFrom_blank p o' spaced white]
      rw [scanFrom_blank p o spaced white] at readable ⊢
      exact ih readable (o'.past [c])
  | fault o spaced c rest cause solid read =>
      rw [scanFrom_fault p o spaced solid read] at readable
      cases readable
  | lexeme o spaced c l behind solid read ih =>
      have head := head?_spliced p inner x (o.past (c :: l.tail)) false behind
      by_cases word : l.word = .name x
      · rw [spliced_self o spaced solid read word]
        rw [scanFrom_lexeme_append spaced solid read] at readable ⊢
        generalize spliced p inner x (o.past (c :: l.tail)) false behind = behind' at ih head ⊢
        have stop : ∀ d, (')' :: behind').head? = some d → Lexeme.Stops p d := by
          intro d found
          cases found
          exact Lexeme.stops_of_paren p (by decide)
        obtain ⟨carried, last, alike, scanned⟩ := scanFrom_append_stop stop .zero true inner clean
          (o'.past ['(']) false (.inr Nat.zero_lt_one)
        obtain ⟨copies, rest, spliced⟩ := ih readable (((o'.past ['(']).past inner).past [')'])
        have length : (Offset.zero.past inner).chars = inner.length := Nat.zero_add _
        rw [scanFrom_open, scanned, scanFrom_close, rest, append_of_readable rfl]
        rw [length] at alike
        exact ⟨_, rfl, .replace word rfl rfl alike spliced⟩
      · rw [spliced_of_ne o spaced solid read word]
        rw [scanFrom_lexeme_append spaced solid read] at readable ⊢
        generalize spliced p inner x (o.past (c :: l.tail)) false behind = behind' at ih head ⊢
        have follows : Lexeme.Follows p behind behind' := by
          intro d found
          rcases head with same | ⟨paren, _⟩
          · exact .inl (same.symm.trans found)
          · cases paren.symm.trans found
            exact .inr (Lexeme.stops_of_paren p (by decide))
        have blank : behind'.head?.all Text.isBlank = behind.head?.all Text.isBlank := by
          rcases head with same | ⟨paren, d, was, solid⟩
          · rw [same]
          · rw [paren, was, Option.all_some, Option.all_some, solid]
            rfl
        obtain ⟨copies, rest, spliced⟩ := ih readable (o'.past (c :: l.tail))
        have read' := Lexeme.read_of_follows read follows o'.chars
        rw [scanFrom_lexeme_append spaced solid read', rest]
        exact ⟨_, rfl, .keep word rfl rfl blank spliced⟩

/-! ## Their roles -/

namespace Item

/-- What a name `x` is for the tree with other tokens, in parentheses, in its place. -/
def spread (x : String) (inner : List (Role × Word)) (key : Role × Word) : List (Role × Word) :=
  if key = (.value, .name x) then (.opening, .openParen) :: inner ++ [(.closing, .closeParen)]
  else [key]

theorem words_of_carried {first last : Nat} {tokens copies : List Token}
    (h : List.Forall₂ (Token.Carried first last) tokens copies) :
    copies.map Token.word = tokens.map Token.word := by
  induction h with
  | nil => rfl
  | cons carried _ ih => rw [List.map_cons, List.map_cons, carried.word, ih]

variable {x : String} {inner : List Token} {last : Nat} {tokens copies : List Token}

/-- Every token keeps its role; those of the inner text have the roles they had. -/
theorem keys_of_spliced (h : Token.Spliced x inner last tokens copies)
    {previous previous' : Option Role}
    (waiting : previous.all Role.needsRight = previous'.all Role.needsRight) :
    (inOrder previous' copies).map key =
      ((inOrder previous tokens).map key).flatMap (spread x ((inOrder none inner).map key)) := by
  induction h generalizing previous previous' with
  | nil => rfl
  | @keep token copy rest copies other word before behind _ ih =>
      have role : Role.ofWord previous' copy.word = Role.ofWord previous token.word := by
        rw [word, Role.ofWord_congr waiting]
      have stays : key ⟨Role.ofWord previous token.word, token⟩ ≠ (.value, .name x) :=
        fun same => other (congrArg Prod.snd same)
      rw [inOrder, inOrder, List.map_cons, List.map_cons, List.flatMap_cons, spread, if_neg stays,
        role, ih rfl, key, key, word, List.singleton_append]
  | @replace token opener closer carried rest copies word opening closing alike _ ih =>
      have name : key ⟨Role.ofWord previous token.word, token⟩ = (.value, .name x) := by
        rw [key, word]
        rfl
      have split := inOrder_append (some .opening) carried (closer :: copies)
      have inside : (inOrder (some .opening) carried).map key = (inOrder none inner).map key :=
        keys_congr rfl (words_of_carried alike)
      have operand : (some (Role.ofWord previous token.word)).all Role.needsRight =
          (some Role.closing).all Role.needsRight := by rw [word]; rfl
      rw [List.cons_append, inOrder, opening]
      change (_ :: inOrder (some .opening) _).map key = _
      rw [split, inOrder, closing]
      change (_ :: (_ ++ _ :: inOrder (some .closing) copies)).map key = _
      rw [inOrder, List.map_cons, List.map_append, List.map_cons, inside, ih operand, List.map_cons,
        List.flatMap_cons, name, spread, if_pos rfl]
      simp [key, opening, closing, Role.ofWord]

theorem exists_of_carried {first : Nat}
    (h : List.Forall₂ (Token.Carried first last) tokens copies) {previous previous' : Option Role}
    (waiting : previous.all Role.needsRight = previous'.all Role.needsRight) :
    ∀ copy ∈ inOrder previous' copies, ∃ item ∈ inOrder previous tokens,
      copy.key = item.key ∧ Token.Carried first last item.token copy.token := by
  induction h generalizing previous previous' with
  | nil => exact fun _ mem => (by cases mem)
  | @cons token copy rest copies carried _ ih =>
      have role : Role.ofWord previous' copy.word = Role.ofWord previous token.word := by
        rw [carried.word, Role.ofWord_congr waiting]
      intro item mem
      rcases List.mem_cons.1 mem with rfl | mem
      · refine ⟨_, .head _, ?_, carried⟩
        rw [key, key, role, carried.word]
      · obtain ⟨found, inside, same⟩ := ih rfl item (role ▸ mem)
        exact ⟨found, .tail _ inside, same⟩

/-- Every token still fits, as no operator is at an end of the inner text. -/
theorem fit_of_spliced {g : Grammar} (h : Token.Spliced x inner last tokens copies)
    {previous previous' : Option Role}
    (waiting : previous.all Role.needsRight = previous'.all Role.needsRight)
    (outer : ∀ item ∈ inOrder previous tokens, item.Fit g)
    (within : ∀ item ∈ inOrder none inner, item.Fit g)
    (apart : ∀ item ∈ inOrder none inner, ∀ op, item.role = .binary op →
      1 ≤ item.token.start.chars ∧ item.token.stop.chars < last) :
    ∀ item ∈ inOrder previous' copies, item.Fit g := by
  induction h generalizing previous previous' with
  | nil => exact fun _ mem => (by cases mem)
  | @keep token copy rest copies other word before behind _ ih =>
      have role : Role.ofWord previous' copy.word = Role.ofWord previous token.word := by
        rw [word, Role.ofWord_congr waiting]
      obtain ⟨here, later⟩ := List.forall_mem_cons.1 outer
      refine List.forall_mem_cons.2 ⟨here.congr ?_ fun _ _ => ⟨before, behind⟩, ?_⟩
      · rw [key, key, role, word]
      · exact ih (congrArg _ (congrArg _ role.symm)) later
  | @replace token opener closer carried rest copies word opening closing alike _ ih =>
      obtain ⟨_, later⟩ := List.forall_mem_cons.1 outer
      have split :=
        inOrder_append (some (Role.ofWord previous' opener.word)) carried (closer :: copies)
      rw [List.cons_append, inOrder, split, inOrder]
      intro item mem
      rcases List.mem_cons.1 mem with rfl | mem
      · exact fit_of_paren g (.inl (by rw [key, opening]; rfl))
      rcases List.mem_append.1 mem with mem | mem
      · have start : (none : Option Role).all Role.needsRight =
            (some (Role.ofWord previous' opener.word)).all Role.needsRight := by rw [opening]; rfl
        obtain ⟨found, inside, same, copied⟩ := exists_of_carried alike start item mem
        refine (within found inside).congr same fun op binary => ?_
        obtain ⟨first, final⟩ := apart found inside op binary
        exact ⟨copied.before first, copied.behind final⟩
      rcases List.mem_cons.1 mem with rfl | mem
      · exact fit_of_paren g (.inr (by rw [key, closing]; rfl))
      · exact ih (by rw [word, closing]; rfl) later item mem

end Item

/-- The tree of tokens with others in place of the names `x`. -/
theorem Layered.subst {x : String} {k : Nat} {items inner items' : List Item} {e u : Expr}
    (layered : Layered k items e) (replacement : Layered 0 inner u)
    (keys : items'.map Item.key =
      (items.map Item.key).flatMap (Item.spread x (inner.map Item.key))) :
    Layered k items' (e.subst x u) := by
  refine layered.replace (h := fun e => e.subst x u) ?_ ?_ (fun _ _ => rfl) (fun _ _ _ => rfl) keys
  · intro key operator
    exact if_neg fun same => operator (congrArg Prod.fst same)
  · intro word e known items spread
    by_cases name : word = .name x
    · subst name
      cases known
      rw [Item.spread, if_pos rfl, List.map_eq_append_iff] at spread
      obtain ⟨front, back, rfl, lead, tail⟩ := spread
      obtain ⟨opener, middle, rfl, opening, same⟩ := List.map_eq_cons_iff.1 lead
      obtain ⟨closer, rfl, closing⟩ := List.map_eq_singleton_iff.1 tail
      have itself : (Expr.var x).subst x u = u := if_pos rfl
      rw [itself]
      exact .enclosed (congrArg Prod.fst opening) (congrArg Prod.fst closing)
        (replacement.congr same)
    · rw [Item.spread, if_neg fun same => name (congrArg Prod.snd same),
        List.map_eq_singleton_iff] at spread
      obtain ⟨item, rfl, key⟩ := spread
      have written : item.token.word = word := congrArg Prod.snd key
      have stays : e.subst x u = e := by
        cases word <;> cases known
        · rfl
        · exact if_neg fun same => name (congrArg Word.name same)
        · rfl
      rw [stays]
      exact .leaf (congrArg Prod.fst key) (written ▸ known)

namespace Formula

/-- The text `source` with `text` in parentheses for the names `x`. -/
def inlined (p : Punctuation) (source x text : String) : String :=
  String.ofList (Scan.splice text.toList 0 (Scan.named x (Scan.ofText p source).tokens)
    source.toList)

section

variable {g : Grammar} {p : Punctuation} {source text : String} {t u : Formula}

/-- The scan of such a text is that of the outer text with that of the inner one in its names. -/
theorem ofText_inlined (x : String) (outer : compile g p source = .ok t)
    (inner : compile g p text = .ok u) :
    (Scan.ofText p (inlined p source x text)).fault = none ∧
      Token.Spliced x (Scan.ofText p text).tokens text.toList.length (Scan.ofText p source).tokens
        (Scan.ofText p (inlined p source x text)).tokens := by
  obtain ⟨copies, scanned, spliced⟩ := Scan.scanFrom_spliced x (readable_of_compile inner) .zero
    true source.toList (readable_of_compile outer) .zero
  have written : Scan.ofText p (inlined p source x text) = ⟨copies, none⟩ := by
    rw [Scan.ofText, inlined, String.toList_ofList]
    exact scanned
  rw [written]
  exact ⟨rfl, spliced⟩

/-- A formula in place of a name: the text compiles to the tree with the tree of the formula for the
variable, or exceeds a limit; and the variable then has the value of the formula. -/
theorem compile_inlined (x : String) (outer : compile g p source = .ok t)
    (inner : compile g p text = .ok u) :
    (compile g p (inlined p source x text) =
        .ok ⟨inlined p source x text, t.root.subst x u.root⟩ ∨
      ∃ d, compile g p (inlined p source x text) = .error d ∧ d.isLimit = true) ∧
    (((Scan.ofText p (inlined p source x text)).items.map Item.role).countP (· ≠ .value) ≤ 1024 →
      (∀ roles, roles <+: (Scan.ofText p (inlined p source x text)).items.map Item.role →
        depthBehind roles ≤ 64) →
      compile g p (inlined p source x text) =
        .ok ⟨inlined p source x text, t.root.subst x u.root⟩) ∧
    (∀ rule value, (t.root.subst x u.root).eval rule value =
      t.root.eval rule (Function.update value x (some (u.root.eval rule value)))) ∧
    (g = .boolean → ∀ value, (t.root.subst x u.root).holds value =
      t.root.holds (Function.update value x (some (u.root.holds value)))) := by
  obtain ⟨readable, spliced⟩ := ofText_inlined x outer inner
  have layered : Layered 0 (Scan.ofText p (inlined p source x text)).items
      (t.root.subst x u.root) :=
    (layered_of_compile outer).subst (layered_of_compile inner) (Item.keys_of_spliced spliced rfl)
  have fit : ∀ item ∈ (Scan.ofText p (inlined p source x text)).items, item.Fit g := by
    refine Item.fit_of_spliced spliced rfl (fit_of_compile outer) (fit_of_compile inner) ?_
    intro item mem op binary
    exact Scan.inner_of_binary ((layered_of_compile inner).derives.walk 0) mem binary
  obtain ⟨cases, compiles⟩ := compile_of_layered readable layered fit
  refine ⟨cases, compiles, fun rule value => Expr.eval_subst rule value x u.root t.root, ?_⟩
  rintro rfl value
  have known : ∀ item ∈ (Scan.ofText p source).items, item.foreign .boolean = none :=
    fun item mem => (fit_of_compile outer item mem).known
  exact Expr.holds_subst value x u.root ((layered_of_compile outer).isLogical known)

/-- A sum for both operands of a difference of products. -/
theorem compile_inlined_sum :
    inlined .standard "a * b - -a" "a" "b + 1" = "(b + 1) * b - -(b + 1)" ∧
    compile .arithmetic .standard "(b + 1) * b - -(b + 1)" = .ok ⟨"(b + 1) * b - -(b + 1)",
      .binary .subtract
        (.binary .multiply (.binary .add (.var "b") (.number 1)) (.var "b"))
        (.unary .negate (.binary .add (.var "b") (.number 1)))⟩ := by
  have outer : compile .arithmetic .standard "a * b - -a" = .ok ⟨"a * b - -a",
      .binary .subtract (.binary .multiply (.var "a") (.var "b")) (.unary .negate (.var "a"))⟩ :=
    eq_ok_of_toOption (by decide +kernel)
  have inner : compile .arithmetic .standard "b + 1" =
      .ok ⟨"b + 1", .binary .add (.var "b") (.number 1)⟩ :=
    eq_ok_of_toOption (by decide +kernel)
  have written : inlined .standard "a * b - -a" "a" "b + 1" = "(b + 1) * b - -(b + 1)" := by
    decide +kernel
  obtain ⟨_, compiles, _⟩ := compile_inlined "a" outer inner
  rw [written] at compiles
  have shallow : ∀ roles ∈ ((Scan.ofText .standard "(b + 1) * b - -(b + 1)").items.map
      Item.role).inits, depthBehind roles ≤ 64 := by decide +kernel
  refine ⟨written, compiles (by decide +kernel) fun roles before => ?_⟩
  exact shallow roles ((List.mem_inits ..).2 before)

end

end Formula

end Criterion
