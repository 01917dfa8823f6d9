/-
# Criterion.Proofs.Printing — a tree that is written and read again

Every operation of a written tree is in parentheses of its own, so precedence does not matter when it
is read again, and all there is to see is what its tokens are. They are those that were meant but for
one case: a `-` is written directly before its operand, and before a literal without a sign of its own
it becomes that sign. `Expr.fuse` is the tree with all such literals negated. It has the value of the
tree (`eval_fuse`), and is the tree itself if no literal is negated in it (`fuse_eq_self_iff`).

`Written e items` says which tokens a tree is written with. An operation has at most three that are no
operands, and its operands lie one parenthesis deeper, and one more behind a prefix operator. So trees
of at most 341 operations and of weight 64 (`Expr.weight`) keep to the limits, and come back
(`Formula.parse_text`).
-/
import Criterion.Evaluation
import Criterion.Proofs.Limits
import Criterion.Proofs.Reach
import Criterion.Proofs.Spelling

namespace Criterion

set_option autoImplicit false

/-! ## Trees -/

namespace Expr

/-- The operations of a tree. -/
def operations : Expr → Nat
  | number _ | bool _ | var _ => 0
  | unary _ operand => operand.operations + 1
  | binary _ left right => left.operations + right.operations + 1

/-- How deep a tree is when it is written: a parenthesis for each operation, and each sign. -/
def weight : Expr → Nat
  | number _ | bool _ | var _ => 0
  | unary _ operand => 2 + operand.weight
  | binary _ left right => 1 + max left.weight right.weight

/-- A tree and all trees in it. -/
def subtrees : Expr → List Expr
  | unary op operand => unary op operand :: operand.subtrees
  | binary op left right => binary op left right :: (left.subtrees ++ right.subtrees)
  | e => [e]

/-- What a `-` makes of a literal without a sign directly behind it. -/
def fused? : UnaryOp → Expr → Option Int32
  | .negate, number n => if 0 ≤ n then some (-n) else none
  | _, _ => none

/-- The tree with every negated literal without a sign made one literal. -/
def fuse : Expr → Expr
  | unary op operand =>
      match fused? op operand with
      | some n => number n
      | none => unary op operand.fuse
  | binary op left right => binary op left.fuse right.fuse
  | e => e

theorem fused?_eq_some_iff {op : UnaryOp} {operand : Expr} {m : Int32} :
    fused? op operand = some m ↔ op = .negate ∧ ∃ n, 0 ≤ n ∧ operand = number n ∧ m = -n := by
  constructor
  · intro h
    unfold fused? at h
    split at h
    · next n =>
        split at h <;> cases h
        exact ⟨rfl, n, ‹_›, rfl, rfl⟩
    · cases h
  · rintro ⟨rfl, n, natural, rfl, rfl⟩
    exact if_pos natural

theorem fuse_unary_of_some {op : UnaryOp} {operand : Expr} {n : Int32}
    (h : fused? op operand = some n) : (unary op operand).fuse = number n := by
  rw [fuse, h]

theorem fuse_unary_of_none {op : UnaryOp} {operand : Expr} (h : fused? op operand = none) :
    (unary op operand).fuse = unary op operand.fuse := by
  rw [fuse, h]

/-- A literal with its sign has the value of its negation. -/
theorem eval_fuse (rule : TruthRule) (value : String → Option Int32) (e : Expr) :
    e.fuse.eval rule value = e.eval rule value := by
  induction e with
  | number | bool | var => rfl
  | unary op operand ih =>
      cases fused : fused? op operand with
      | none => rw [fuse_unary_of_none fused, eval, eval, ih]
      | some m =>
          rw [fuse_unary_of_some fused]
          obtain ⟨rfl, n, _, rfl, rfl⟩ := fused?_eq_some_iff.1 fused
          rfl
  | binary op left right ih_left ih_right => rw [fuse, eval, eval, ih_left, ih_right]

theorem fuse_eq_self_iff (e : Expr) :
    e.fuse = e ↔ ∀ n, 0 ≤ n → unary .negate (number n) ∉ e.subtrees := by
  induction e with
  | number | bool | var => simp [fuse, subtrees]
  | unary op operand ih =>
      cases fused : fused? op operand with
      | some m =>
          rw [fuse_unary_of_some fused]
          obtain ⟨rfl, n, natural, rfl, _⟩ := fused?_eq_some_iff.1 fused
          exact iff_of_false (fun eq => by cases eq) fun none => none n natural (.head _)
      | none =>
          have here : ∀ n, 0 ≤ n → unary .negate (number n) ≠ unary op operand := by
            rintro n natural ⟨⟩
            rw [fused?, if_pos natural] at fused
            cases fused
          rw [fuse_unary_of_none fused, unary.injEq, ih]
          constructor
          · rintro ⟨_, inner⟩ n natural mem
            rcases List.mem_cons.1 mem with same | mem
            · exact here n natural same
            · exact inner n natural mem
          · exact fun none => ⟨rfl, fun n natural mem => none n natural (.tail _ mem)⟩
  | binary op left right ih_left ih_right =>
      rw [fuse, binary.injEq, ih_left, ih_right]
      constructor
      · rintro ⟨_, first, second⟩ n natural mem
        rcases List.mem_cons.1 mem with same | mem
        · cases same
        · exact (List.mem_append.1 mem).elim (first n natural) (second n natural)
      · intro none
        exact ⟨rfl, fun n natural mem => none n natural (.tail _ (List.mem_append_left _ mem)),
          fun n natural mem => none n natural (.tail _ (List.mem_append_right _ mem))⟩

end Expr

/-! ## Tokens of a written tree -/

/-- The tokens that a tree is written with. -/
inductive Written : Expr → List Item → Prop where
  | leaf {e : Expr} {item : Item} :
      item.role = .value → item.token.word.leaf? = some e → Written e [item]
  | literal {op : UnaryOp} {operand : Expr} {n : Int32} {opener item closer : Item} :
      Expr.fused? op operand = some n → opener.role = .opening → item.role = .value →
      item.token.word = .number n → closer.role = .closing →
      Written (.unary op operand) ([opener] ++ [item] ++ [closer])
  | unary {op : UnaryOp} {operand : Expr} {opener item closer : Item} {items : List Item} :
      Expr.fused? op operand = none → opener.role = .opening → item.role = .unary op →
      Written operand items → closer.role = .closing →
      Written (.unary op operand) ([opener] ++ ([item] ++ items) ++ [closer])
  | binary {op : BinaryOp} {l r : Expr} {opener item closer : Item} {ls rs : List Item} :
      opener.role = .opening → Written l ls → item.role = .binary op →
      item.token.spacedBefore = true → item.token.spacedAfter = true → Written r rs →
      closer.role = .closing →
      Written (.binary op l r) ([opener] ++ (ls ++ ([item] ++ rs)) ++ [closer])

namespace Written

variable {e : Expr} {items : List Item}

theorem layered (h : Written e items) : Layered 7 items e.fuse := by
  induction h with
  | @leaf e item role word =>
      have same : e.fuse = e := by
        rcases Word.leaf_cases word with ⟨_, rfl⟩ | ⟨_, rfl⟩ | ⟨_, rfl⟩ <;> rfl
      rw [same]
      exact .leaf role word
  | @literal op operand n opener item closer fused opening role word closing =>
      rw [Expr.fuse_unary_of_some fused]
      have leaf : Layered 7 [item] (.number n) := .leaf role (by rw [word]; rfl)
      exact .enclosed opening closing (leaf.loosen (Nat.zero_le 7) (Nat.le_refl 7))
  | unary fused opening role _ closing ih =>
      rw [Expr.fuse_unary_of_none fused]
      have signed := Layered.unary role (ih.loosen (by decide) (Nat.le_refl 7))
      exact .enclosed opening closing (signed.loosen (Nat.zero_le 6) (by decide))
  | @binary op l r opener item closer ls rs opening _ role _ _ _ closing ih_left ih_right =>
      have layer := op.layer_lt
      have operation := Layered.operation rfl role (ih_left.loosen (by omega) (Nat.le_refl 7))
        (ih_right.loosen (by omega) (Nat.le_refl 7))
      exact .enclosed opening closing (operation.loosen (Nat.zero_le _) (by omega))

theorem derives (h : Written e items) : Derives (items.map Item.role) := h.layered.derives

/-- The arithmetic grammar knows all tokens, and those that need white space have it. -/
theorem fit (h : Written e items) : ∀ item ∈ items, item.Fit .arithmetic := by
  have apart {item : Item} (role : ∀ op, item.role ≠ .binary op) : item.Fit .arithmetic :=
    ⟨rfl, item.crampedBefore_eq_none_iff.2 fun op binary => absurd binary (role op),
      item.crampedAfter_eq_none_iff.2 fun op binary => absurd binary (role op)⟩
  induction h with
  | leaf role _ => simpa using apart (by simp [role])
  | literal _ opening role _ closing =>
      simp only [List.forall_mem_append, List.forall_mem_singleton]
      exact ⟨⟨apart (by simp [opening]), apart (by simp [role])⟩, apart (by simp [closing])⟩
  | unary _ opening role _ closing ih =>
      simp only [List.forall_mem_append, List.forall_mem_singleton]
      exact ⟨⟨apart (by simp [opening]), apart (by simp [role]), ih⟩, apart (by simp [closing])⟩
  | @binary _ _ _ _ item _ _ _ opening _ role before behind _ closing ih_left ih_right =>
      have operator : item.Fit .arithmetic :=
        ⟨rfl, item.crampedBefore_eq_none_iff.2 fun _ _ => before,
          item.crampedAfter_eq_none_iff.2 fun _ _ => behind⟩
      simp only [List.forall_mem_append, List.forall_mem_singleton]
      exact ⟨⟨apart (by simp [opening]), ih_left, operator, ih_right⟩, apart (by simp [closing])⟩

/-- At most three tokens of an operation are no operands. -/
theorem short (h : Written e items) :
    (items.map Item.role).countP (· ≠ .value) ≤ 3 * e.operations := by
  have one (role : Role) (operator : role ≠ .value) : [role].countP (· ≠ .value) = 1 := by
    simp [operator]
  have none : [Role.value].countP (· ≠ .value) = 0 := rfl
  induction h with
  | leaf role _ =>
      rw [List.map_singleton, role, none]
      exact Nat.zero_le _
  | literal _ opening role _ closing =>
      simp only [List.map_append, List.map_singleton, List.countP_append, opening, role, closing]
      rw [none, one _ (by decide), one _ (by decide), Expr.operations]
      omega
  | @unary op _ _ _ _ _ _ opening role _ closing ih =>
      simp only [List.map_append, List.map_singleton, List.countP_append, opening, role, closing]
      rw [one _ (by decide), one (.unary op) (by simp), one _ (by decide), Expr.operations]
      omega
  | @binary op _ _ _ _ _ _ _ opening _ role _ _ _ closing ih_left ih_right =>
      simp only [List.map_append, List.map_singleton, List.countP_append, opening, role, closing]
      rw [one _ (by decide), one (.binary op) (by simp), one _ (by decide), Expr.operations]
      omega

/-- A written tree reaches as deep as it weighs. -/
theorem shallow (h : Written e items) {before : List Role} {limit : Nat}
    (room : depthBehind before + e.weight ≤ limit) :
    Shallow limit before (items.map Item.role) := by
  induction h generalizing before with
  | leaf role _ =>
      have here := Nat.le_trans (Nat.le_add_right ..) room
      rw [List.map_singleton, role]
      exact shallow_singleton here (Nat.le_trans (Derives.value.depthBehind_le before) here)
  | literal _ opening role _ closing =>
      have opened := depthBehind_opening before
      simp only [Expr.weight] at room
      simp only [List.map_append, List.map_singleton, opening, role, closing]
      have here : depthBehind (before ++ [.opening]) ≤ limit := by omega
      exact shallow_enclosed .value
        (shallow_singleton here (Nat.le_trans (Derives.value.depthBehind_le _) here))
  | @unary op _ _ _ _ _ _ opening role inner closing ih =>
      have opened := depthBehind_opening before
      have signed := depthBehind_unary (before ++ [.opening]) op
      simp only [Expr.weight] at room
      simp only [List.map_append, List.map_singleton, opening, role, closing]
      refine shallow_enclosed (.unary inner.derives) (shallow_append ?_ (ih ?_))
      · exact shallow_singleton (by omega) (by omega)
      · omega
  | @binary op _ _ _ _ _ ls _ opening left role _ _ right closing ih_left ih_right =>
      -- The left operand leaves nothing open, so the right one begins no deeper than it did.
      have opened := depthBehind_opening before
      have passed := left.derives.depthBehind_le (before ++ [.opening])
      have joined := depthBehind_binary_le (before ++ [.opening] ++ ls.map Item.role) op
      simp only [Expr.weight] at room
      simp only [List.map_append, List.map_singleton, opening, role, closing]
      refine shallow_enclosed (.binary left.derives right.derives)
        (shallow_append (ih_left ?_) (shallow_append ?_ (ih_right ?_)))
      · omega
      · exact shallow_singleton (by omega) (by omega)
      · omega

end Written

/-! ## Scanning a written tree -/

namespace UnaryOp

/-- How the operator is written. -/
def sign : UnaryOp → Sign
  | .not => .bang
  | .complement => .tilde
  | .negate => .minus

theorem text_sign (op : UnaryOp) : op.sign.text = op.text := by cases op <;> rfl

theorem ofSign_sign (op : UnaryOp) : Role.ofSign true op.sign = .unary op := by cases op <;> rfl

end UnaryOp

namespace BinaryOp

/-- How the operator is written. -/
def sign : BinaryOp → Sign
  | .or => .doubleBar
  | .and => .doubleAmp
  | .equal => .doubleEqual
  | .unequal => .bangEqual
  | .less => .less
  | .lessEqual => .lessEqual
  | .greater => .greater
  | .greaterEqual => .greaterEqual
  | .add => .plus
  | .subtract => .minus
  | .multiply => .star
  | .divide => .slash
  | .remainder => .percent

theorem text_sign (op : BinaryOp) : op.sign.text = op.text := by cases op <;> rfl

theorem ofSign_sign (op : BinaryOp) : Role.ofSign false op.sign = .binary op := by cases op <;> rfl

end BinaryOp

theorem Role.ofWord_of_leaf {word : Word} {e : Expr} (leaf : word.leaf? = some e)
    (previous : Option Role) : ofWord previous word = .value := by
  cases word <;> first
    | rfl
    | cases leaf

/-- Each variable of the tree is written as one name. -/
def Expr.Spelled (p : Punctuation) (e : Expr) : Prop :=
  ∀ name ∈ e.names, Lexeme.Whole p name.toList (.name name)

/-- A written tree begins with no part of an operator, and with a digit only if it is a literal
without a sign. -/
theorem Expr.exists_head {p : Punctuation} {e : Expr} (spelled : e.Spelled p) :
    ∃ c rest, e.chars = c :: rest ∧ c ∉ ['=', '&', '|'] ∧
      (c.isDigit = true → ∃ n, 0 ≤ n ∧ e = .number n) := by
  have digits : ['=', '&', '|'].all (fun c => !c.isDigit) = true := by decide
  have names : ['=', '&', '|'].all (fun c => !Lexeme.startsName c) = true := by decide
  cases e with
  | number n =>
      by_cases natural : 0 ≤ n
      · obtain ⟨m, _, written⟩ := Decimal.write_of_le natural
        have some_digit : Nat.toDigits 10 m ≠ [] := Nat.toDigits_ne_nil
        obtain ⟨c, rest, split⟩ := List.exists_cons_of_ne_nil some_digit
        have first : c ∈ Nat.toDigits 10 m := by
          rw [split]
          exact .head rest
        have digit := Decimal.isDigit_of_mem_toDigits first
        refine ⟨c, rest, written.trans split, fun mem => ?_, fun _ => ⟨n, natural, rfl⟩⟩
        have never := List.all_eq_true.1 digits c mem
        rw [digit] at never
        cases never
      · obtain ⟨ds, written⟩ := Decimal.write_of_lt natural
        exact ⟨'-', ds, written, by decide, fun digit => by cases digit⟩
  | bool b =>
      cases b with
      | true => exact ⟨'t', _, rfl, by decide, fun digit => by cases digit⟩
      | false => exact ⟨'f', _, rfl, by decide, fun digit => by cases digit⟩
  | var name =>
      obtain ⟨c, tail, written, _, read⟩ := spelled name (.head _)
      have starts := Lexeme.startsName_of_read read rfl
      refine ⟨c, tail, written, fun mem => ?_, fun digit => ?_⟩
      · have never := List.all_eq_true.1 names c mem
        rw [starts] at never
        cases never
      · rw [Lexeme.isDigit_of_startsName starts] at digit
        cases digit
  | unary op operand => exact ⟨'(', _, rfl, by decide, fun digit => by cases digit⟩
  | binary op l r => exact ⟨'(', _, rfl, by decide, fun digit => by cases digit⟩

namespace Scan

variable {p : Punctuation}

/-- The tokens of a tree, where an operand is due. -/
def Writes (e : Expr) (tokens : List Token) : Prop :=
  ∀ previous : Option Role, previous.all Role.needsRight = true →
    Written e (Item.inOrder previous tokens)

theorem writes_leaf {e : Expr} {token : Token} (leaf : token.word.leaf? = some e) :
    Writes e [token] :=
  fun previous _ => .leaf (Role.ofWord_of_leaf leaf previous) leaf

/-- Tokens in parentheses stand where an operand is due. -/
theorem inOrder_enclosed {opener closer : Token} (opening : opener.word = .openParen)
    (closing : closer.word = .closeParen) (previous : Option Role) (tokens : List Token) :
    Item.inOrder previous ([opener] ++ tokens ++ [closer]) =
      [⟨.opening, opener⟩] ++ Item.inOrder (some .opening) tokens ++ [⟨.closing, closer⟩] := by
  rw [List.append_assoc, List.singleton_append, Item.inOrder, opening]
  change _ :: Item.inOrder (some .opening) (tokens ++ [closer]) = _
  rw [Item.inOrder_append, Item.inOrder, closing]
  rfl

theorem writes_literal {op : UnaryOp} {operand : Expr} {n : Int32} {opener token closer : Token}
    (fused : Expr.fused? op operand = some n) (opening : opener.word = .openParen)
    (number : token.word = .number n) (closing : closer.word = .closeParen) :
    Writes (.unary op operand) ([opener] ++ [token] ++ [closer]) := by
  intro previous _
  have role : Role.ofWord (some .opening) token.word = .value := by
    rw [number]
    rfl
  rw [inOrder_enclosed opening closing]
  exact .literal fused rfl role number rfl

theorem writes_unary {op : UnaryOp} {operand : Expr} {opener token closer : Token}
    {tokens : List Token} (fused : Expr.fused? op operand = none)
    (opening : opener.word = .openParen) (sign : token.word = .sign op.sign)
    (inner : Writes operand tokens) (closing : closer.word = .closeParen) :
    Writes (.unary op operand) ([opener] ++ ([token] ++ tokens) ++ [closer]) := by
  intro previous _
  have role : Role.ofWord (some .opening) token.word = .unary op := by
    rw [sign]
    exact op.ofSign_sign
  have split : Item.inOrder (some .opening) ([token] ++ tokens) =
      [⟨.unary op, token⟩] ++ Item.inOrder (some (.unary op)) tokens := by
    rw [List.singleton_append, Item.inOrder, role]
    rfl
  rw [inOrder_enclosed opening closing, split]
  exact .unary fused rfl rfl (inner _ rfl) rfl

theorem writes_binary {op : BinaryOp} {l r : Expr} {opener token closer : Token}
    {ls rs : List Token} (opening : opener.word = .openParen) (left : Writes l ls)
    (sign : token.word = .sign op.sign) (before : token.spacedBefore = true)
    (behind : token.spacedAfter = true) (right : Writes r rs)
    (closing : closer.word = .closeParen) :
    Writes (.binary op l r) ([opener] ++ (ls ++ ([token] ++ rs)) ++ [closer]) := by
  intro previous _
  obtain ⟨last, found, operand⟩ := (left (some .opening) rfl).derives.exists_last
  have role : Role.ofWord (some last) token.word = .binary op := by
    rw [sign, Role.ofWord, Option.all_some, operand]
    exact op.ofSign_sign
  have split : Item.inOrder (some .opening) (ls ++ ([token] ++ rs)) =
      Item.inOrder (some .opening) ls ++
        ([⟨.binary op, token⟩] ++ Item.inOrder (some (.binary op)) rs) := by
    rw [Item.inOrder_append, found, Option.some_or, List.singleton_append, Item.inOrder, role]
    rfl
  rw [inOrder_enclosed opening closing, split]
  exact .binary rfl (left _ rfl) rfl before behind (right _ rfl) rfl

/-- Wherever a character that stops follows, the tree that is written is scanned to its tokens. -/
def Scanned (p : Punctuation) (e : Expr) : Prop :=
  ∀ o spaced behind, (∀ d, behind.head? = some d → Lexeme.Stops p d) →
    ∃ tokens, Yields p o spaced e.chars behind tokens ∧ Writes e tokens

theorem scanned_leaf {e : Expr} {word : Word} (whole : Lexeme.Whole p e.chars word)
    (leaf : word.leaf? = some e) : Scanned p e := by
  intro o spaced behind stop
  obtain ⟨token, named, _, _, yields⟩ := takes_of_whole whole stop o spaced
  exact ⟨[token], yields, writes_leaf (by rw [named, leaf])⟩

theorem stops_close (p : Punctuation) (more : List Char) :
    ∀ d, ([')'] ++ more).head? = some d → Lexeme.Stops p d := by
  rintro d ⟨⟩
  exact Lexeme.stops_of_paren p (by decide)

theorem stops_space (p : Punctuation) (more : List Char) :
    ∀ d, (' ' :: more).head? = some d → Lexeme.Stops p d := by
  rintro d ⟨⟩
  exact Lexeme.stops_of_isBlank p (by decide)

theorem scanned_literal (p : Punctuation) {op : UnaryOp} {operand : Expr} {m : Int32}
    (fused : Expr.fused? op operand = some m) : Scanned p (.unary op operand) := by
  intro o spaced behind _
  obtain ⟨rfl, n, natural, rfl, rfl⟩ := Expr.fused?_eq_some_iff.1 fused
  have text : (Expr.unary .negate (.number n)).chars =
      ['('] ++ ('-' :: Decimal.write n) ++ [')'] := rfl
  obtain ⟨opener, opening, _, _, first⟩ :=
    takes_open p ('-' :: Decimal.write n ++ ([')'] ++ behind)) o spaced
  obtain ⟨token, number, _, _, literal⟩ :=
    takes_of_whole (Lexeme.whole_neg p natural) (stops_close p behind) (o.past ['(']) false
  obtain ⟨closer, closing, _, _, last⟩ :=
    takes_close p behind (o.past (['('] ++ ('-' :: Decimal.write n))) false
  rw [text]
  exact ⟨_, (Yields.append first literal).append last,
    writes_literal fused opening number closing⟩

/-- A sign before an operand that does not become a literal with it. -/
theorem takes_unary_sign {op : UnaryOp} {operand : Expr} (fused : Expr.fused? op operand = none)
    (spelled : operand.Spelled p) (behind : List Char) :
    Takes p op.sign.text.toList (.sign op.sign) (operand.chars ++ behind) := by
  obtain ⟨c, rest, written, plain, digit⟩ := Expr.exists_head spelled
  rw [written]
  apply takes_sign
  · rintro d ⟨⟩
    exact plain
  · rintro minus d ⟨⟩
    cases number : c.isDigit with
    | false => rfl
    | true =>
        -- Only a literal without a sign begins with a digit, and that one would be fused.
        obtain ⟨n, natural, rfl⟩ := digit number
        cases op <;> cases minus
        rw [Expr.fused?, if_pos natural] at fused
        cases fused

theorem scanned_unary {op : UnaryOp} {operand : Expr} (fused : Expr.fused? op operand = none)
    (spelled : operand.Spelled p) (inner : Scanned p operand) : Scanned p (.unary op operand) := by
  intro o spaced behind _
  have text : (Expr.unary op operand).chars =
      ['('] ++ (op.sign.text.toList ++ operand.chars) ++ [')'] := by
    rw [op.text_sign]
    rfl
  obtain ⟨opener, opening, _, _, first⟩ :=
    takes_open p (op.sign.text.toList ++ operand.chars ++ ([')'] ++ behind)) o spaced
  obtain ⟨token, sign, _, _, signed⟩ :=
    takes_unary_sign fused spelled ([')'] ++ behind) (o.past ['(']) false
  obtain ⟨tokens, yields, writes⟩ :=
    inner ((o.past ['(']).past op.sign.text.toList) false _ (stops_close p behind)
  obtain ⟨closer, closing, _, _, last⟩ :=
    takes_close p behind (o.past (['('] ++ (op.sign.text.toList ++ operand.chars))) false
  rw [text]
  exact ⟨_, (Yields.append first (signed.append yields)).append last,
    writes_unary fused opening sign writes closing⟩

theorem scanned_binary (op : BinaryOp) {l r : Expr} (left : Scanned p l) (right : Scanned p r) :
    Scanned p (.binary op l r) := by
  intro o spaced behind _
  have blank : Text.isBlank ' ' = true := by decide
  have text : (Expr.binary op l r).chars =
      ['('] ++ (l.chars ++ ((' ' :: op.sign.text.toList) ++ (' ' :: r.chars))) ++ [')'] := by
    show '(' :: l.chars ++ ' ' :: op.text.toList ++ ' ' :: r.chars ++ [')'] = _
    simp only [op.text_sign, List.append_assoc, List.cons_append, List.nil_append]
  obtain ⟨opener, opening, _, _, first⟩ := takes_open p
    (l.chars ++ ((' ' :: op.sign.text.toList) ++ (' ' :: r.chars)) ++ ([')'] ++ behind)) o spaced
  obtain ⟨ls, yields_left, writes_left⟩ := left (o.past ['(']) false
    ((' ' :: op.sign.text.toList) ++ (' ' :: r.chars) ++ ([')'] ++ behind)) (stops_space p _)
  have stops := stops_space p (r.chars ++ ([')'] ++ behind))
  obtain ⟨token, sign, before, after, middle⟩ :=
    takes_sign p op.sign (fun d head => (stops d head).sign) (fun _ d head => (stops d head).digit)
      (((o.past ['(']).past l.chars).past [' ']) true
  obtain ⟨rs, yields_right, writes_right⟩ := right
    ((((o.past ['(']).past l.chars).past (' ' :: op.sign.text.toList)).past [' ']) true _
    (stops_close p behind)
  obtain ⟨closer, closing, _, _, last⟩ := takes_close p behind
    (o.past (['('] ++ (l.chars ++ ((' ' :: op.sign.text.toList) ++ (' ' :: r.chars))))) false
  rw [text]
  exact ⟨_, (Yields.append first (yields_left.append
      ((middle.blank blank false).append (yields_right.blank blank false)))).append last,
    writes_binary opening writes_left sign before (after.trans blank) writes_right closing⟩

/-- A written tree is scanned to its tokens. -/
theorem scanned_of_spelled {e : Expr} (spelled : e.Spelled p) : Scanned p e := by
  induction e with
  | number n => exact scanned_leaf (Lexeme.whole_write p n) rfl
  | bool b => exact scanned_leaf (Lexeme.whole_bool p b) rfl
  | var name => exact scanned_leaf (spelled name (.head _)) rfl
  | unary op operand ih =>
      cases fused : Expr.fused? op operand with
      | some m => exact scanned_literal p fused
      | none => exact scanned_unary fused spelled (ih spelled)
  | binary op l r ih_left ih_right =>
      have left : l.Spelled p := fun name mem => spelled name (List.mem_append_left _ mem)
      have right : r.Spelled p := fun name mem => spelled name (List.mem_append_right _ mem)
      exact scanned_binary op (ih_left left) (ih_right right)

end Scan

namespace Formula

/-- A tree that is written and read again is the tree with its negated literals made literals, and
so has the value it had. -/
theorem parse_text {p : Punctuation} {t : Expr}
    (spelled : ∀ name ∈ t.names,
      ∃ token, Scan.ofText p name = ⟨[token], none⟩ ∧ token.word = .name name)
    (few : t.operations ≤ 341) (light : t.weight ≤ 64) :
    parse .arithmetic p t.text = .ok t.fuse ∧
    (parse .arithmetic p t.text = .ok t ↔
      ∀ n, 0 ≤ n → .unary .negate (.number n) ∉ t.subtrees) ∧
    ∀ rule value, t.fuse.eval rule value = t.eval rule value := by
  have whole : t.Spelled p := by
    intro name mem
    obtain ⟨token, scanned, word⟩ := spelled name mem
    refine Scan.whole_of_mem .zero true name.toList token ?_ name word
    rw [← Scan.ofText, scanned]
    exact .head []
  obtain ⟨tokens, yields, writes⟩ := Scan.scanned_of_spelled whole .zero true [] (by simp)
  have scanned : Scan.ofText p t.text = ⟨tokens, none⟩ := by
    rw [Scan.ofText, Expr.text, String.toList_ofList, yields.scanFrom_eq]
  have written : Written t (Scan.ofText p t.text).items := by
    rw [scanned]
    exact writes none rfl
  have short := Nat.le_trans written.short (Nat.mul_le_mul_left 3 few)
  have shallow : Shallow 64 [] ((Scan.ofText p t.text).items.map Item.role) :=
    written.shallow (Nat.le_trans (Nat.le_of_eq (Nat.zero_add _)) light)
  have parsed : parse .arithmetic p t.text = .ok t.fuse := by
    have readable : (Scan.ofText p t.text).fault = none := by rw [scanned]
    have layered := written.layered.loosen (Nat.zero_le 7) (Nat.le_refl 7)
    have compiles := (compile_of_layered readable layered written.fit).2
    exact parse_of_compile (compiles (Nat.le_trans short (by decide)) shallow)
  refine ⟨parsed, ?_, fun rule value => t.eval_fuse rule value⟩
  rw [parsed, Except.ok.injEq]
  exact t.fuse_eq_self_iff

/-- Of two negations of the least integer and of 5 only the first is read back as one. -/
theorem parse_text_literals :
    parse .arithmetic .standard "((--2147483648) - (a.b * (-5)))" = .ok
      (.binary .subtract (.unary .negate (.number (-2147483648)))
        (.binary .multiply (.var "a.b") (.number (-5)))) := by
  have spelled : ∀ name ∈ ["a.b"], ∃ token,
      Scan.ofText .standard name = ⟨[token], none⟩ ∧ token.word = .name name := by
    intro name mem
    rw [List.mem_singleton.1 mem]
    exact ⟨⟨.name "a.b", "a.b", ⟨0, 0⟩, ⟨3, 3⟩, true, true⟩, by decide +kernel, rfl⟩
  let t : Expr := .binary .subtract (.unary .negate (.number (-2147483648)))
    (.binary .multiply (.var "a.b") (.unary .negate (.number 5)))
  exact (parse_text (t := t) spelled (by decide) (by decide)).1

end Formula

end Criterion
