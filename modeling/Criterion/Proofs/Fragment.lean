/-
# Criterion.Proofs.Fragment — the logical fragment of the language

A tree of names, truth values and logical operators (`Expr.isLogical`) is one that the boolean
grammar gives, and that grammar gives no other.

* `compile_boolean_iff`: the boolean grammar accepts a text exactly if the arithmetic one does and
  gives it such a tree, which is then the tree of both. No token that the boolean grammar refuses is
  without a trace in the tree (`Layered.known_of_isLogical`). And where the arithmetic grammar
  refuses a text, the boolean one does so too: the two find the same until one of them meets a token
  that it does not know (`Context.verdict_boolean`).
* `eval_of_compile_boolean`: such a tree has one value. Counted as 1 or 0, its truth value is its
  integer value under either rule of truth, because no operation in it has an operand that is another
  integer; so it means the same at every tier.
-/
import Criterion.Proofs.Limits
import Criterion.Tier

namespace Criterion

set_option autoImplicit false

/-! ## Logical trees -/

/-- A tree of names, truth values and logical operators. -/
def Expr.isLogical : Expr → Bool
  | number _ => false
  | bool _ | var _ => true
  | unary op operand => op = .not && operand.isLogical
  | binary op left right => op.isLogical && left.isLogical && right.isLogical

/-- Tokens that the boolean grammar knows have a logical tree. -/
theorem Layered.isLogical {k : Nat} {items : List Item} {e : Expr} (layered : Layered k items e)
    (known : ∀ item ∈ items, item.foreign .boolean = none) : e.isLogical = true := by
  induction layered with
  | @operation k op item ls rs l r layer role _ _ ih_left ih_right =>
      have logical := (item.foreign_boolean_iff.1 (known item (by simp))).2
      rw [role] at logical
      rw [Expr.isLogical, ih_left fun item mem => known item (by simp [mem]),
        ih_right fun item mem => known item (by simp [mem]), Bool.and_true, Bool.and_true]
      exact logical
  | tighter _ _ ih => exact ih known
  | @unary op item items e role _ ih =>
      have logical := (item.foreign_boolean_iff.1 (known item (.head _))).2
      rw [role] at logical
      rw [Expr.isLogical, ih fun item mem => known item (.tail _ mem), Bool.and_true]
      exact logical
  | @leaf item e role word =>
      have number := (item.foreign_boolean_iff.1 (known item (.head _))).1
      cases written : item.token.word <;> rw [written] at word <;> cases word
      · exact absurd written (number _)
      · rfl
      · rfl
  | enclosed _ _ _ ih => exact ih fun item mem => known item (by simp [mem])

/-- A token with the role of its word is known to the boolean grammar if it is no value and its role
is logical. -/
theorem Item.known_of_operator {item : Item}
    (worded : ∃ previous, item.role = Role.ofWord previous item.token.word)
    (operator : item.role ≠ .value) (logical : item.role.isLogical = true) :
    item.foreign .boolean = none := by
  refine item.foreign_boolean_iff.2 ⟨fun n number => ?_, logical⟩
  obtain ⟨previous, role⟩ := worded
  rw [number] at role
  exact operator role

/-- A logical tree is one of tokens that the boolean grammar knows: each of them is a node of the tree
or a parenthesis. -/
theorem Layered.known_of_isLogical {k : Nat} {items : List Item} {e : Expr}
    (layered : Layered k items e) (logical : e.isLogical = true)
    (worded : ∀ item ∈ items, ∃ previous, item.role = Role.ofWord previous item.token.word) :
    ∀ item ∈ items, item.foreign .boolean = none := by
  induction layered with
  | @operation k op item ls rs l r layer role _ _ ih_left ih_right =>
      simp only [Expr.isLogical, Bool.and_eq_true] at logical
      obtain ⟨⟨known, left⟩, right⟩ := logical
      rw [List.forall_mem_append, List.forall_mem_cons] at worded ⊢
      obtain ⟨lefts, here, rights⟩ := worded
      refine ⟨ih_left left lefts, Item.known_of_operator here ?_ ?_, ih_right right rights⟩
      · simp [role]
      · rw [role]
        exact known
  | tighter _ _ ih => exact ih logical worded
  | @unary op item items e role _ ih =>
      simp only [Expr.isLogical, Bool.and_eq_true, decide_eq_true_eq] at logical
      obtain ⟨rfl, operand⟩ := logical
      obtain ⟨here, rest⟩ := List.forall_mem_cons.1 worded
      refine List.forall_mem_cons.2 ⟨Item.known_of_operator here ?_ ?_, ih operand rest⟩
      · simp [role]
      · rw [role]
        rfl
  | @leaf item e role word =>
      intro found mem
      obtain rfl := List.mem_singleton.1 mem
      refine found.foreign_boolean_iff.2 ⟨fun n number => ?_, by rw [role]; rfl⟩
      rw [number] at word
      cases word
      cases logical
  | enclosed opening closing _ ih =>
      rw [List.forall_mem_append, List.forall_mem_cons, List.forall_mem_singleton] at worded ⊢
      obtain ⟨⟨opener, inner⟩, closer⟩ := worded
      refine ⟨⟨Item.known_of_operator opener ?_ ?_, ih logical inner⟩,
        Item.known_of_operator closer ?_ ?_⟩
      · simp [opening]
      · rw [opening]
        rfl
      · simp [closing]
      · rw [closing]
        rfl

/-! ## The two grammars -/

/-- Whether the fault is that the boolean grammar does not know a token. -/
def Diagnostic.isForeign : Diagnostic → Bool
  | .grammar (.foreignNumber _ _) | .grammar (.foreignOperator _ _) => true
  | _ => false

theorem Item.foreign_isForeign {g : Grammar} {item : Item} {cause : GrammarFault}
    (h : item.foreign g = some cause) : (Diagnostic.grammar cause).isForeign = true := by
  unfold foreign at h
  split at h
  · cases h
  · cases h
    rfl
  · split at h <;> cases h
    rfl

namespace Context

/-- The same, read by another grammar. -/
def under (g : Grammar) (c : Context) : Context := { c with grammar := g }

/-- The boolean grammar finds what the arithmetic one does, unless it does not know the token. -/
theorem objection_boolean (c : Context) (token : Token) :
    (c.under .boolean).objection token = (c.under .arithmetic).objection token ∨
      ∃ cause, (c.under .boolean).objection token = some cause ∧
        (Diagnostic.grammar cause).isForeign = true := by
  show (c.previous.bind Item.crampedAfter).or (((c.item token).foreign .boolean).or _) =
      (c.previous.bind Item.crampedAfter).or (((c.item token).foreign .arithmetic).or _) ∨
    ∃ cause, (c.previous.bind Item.crampedAfter).or (((c.item token).foreign .boolean).or _) =
      some cause ∧ _
  cases c.previous.bind Item.crampedAfter with
  | some cause => exact .inl rfl
  | none =>
      cases foreign : (c.item token).foreign .boolean with
      | none => exact .inl rfl
      | some cause => exact .inr ⟨cause, rfl, Item.foreign_isForeign foreign⟩

theorem verdict_boolean (c : Context) (length : Nat) (fault : Option LexicalFault)
    (tokens : List Token) :
    (c.under .boolean).verdict length fault tokens =
        (c.under .arithmetic).verdict length fault tokens ∨
      ∃ d, (c.under .boolean).verdict length fault tokens = some d ∧ d.isForeign = true := by
  induction tokens generalizing c with
  | nil => exact .inl rfl
  | cons token rest ih =>
      rw [verdict, verdict]
      rcases c.objection_boolean token with same | ⟨cause, objection, foreign⟩
      · rw [same]
        cases (c.under .arithmetic).objection token with
        | some cause => exact .inl rfl
        | none => exact ih (c.advance token)
      · rw [objection]
        exact .inr ⟨.grammar cause, rfl, foreign⟩

end Context

namespace Formula

section

variable {p : Punctuation} {source : String} {f : Formula}

theorem verdict_start_boolean (p : Punctuation) (source : String) :
    (Context.start .boolean).verdict source.toList.length (Scan.ofText p source).fault
        (Scan.ofText p source).tokens =
      (Context.start .arithmetic).verdict source.toList.length (Scan.ofText p source).fault
        (Scan.ofText p source).tokens ∨
    ∃ d, (Context.start .boolean).verdict source.toList.length (Scan.ofText p source).fault
        (Scan.ofText p source).tokens = some d ∧ d.isForeign = true :=
  (Context.start .arithmetic).verdict_boolean _ _ _

/-- A formula of the boolean grammar has a logical tree. -/
theorem isLogical_of_compile (h : compile .boolean p source = .ok f) : f.root.isLogical = true :=
  (layered_of_compile h).isLogical fun item mem => (fit_of_compile h item mem).known

/-- It is a formula of the arithmetic grammar as well. -/
theorem compile_arithmetic_of_boolean (h : compile .boolean p source = .ok f) :
    compile .arithmetic p source = .ok f := by
  have clear := verdict_of_compile h
  have compiles : ∃ f', compile .arithmetic p source = .ok f' := by
    apply (exists_compile_eq_ok_iff .arithmetic p source).2
    rcases verdict_start_boolean p source with same | ⟨d, refused, _⟩
    · rw [← same]
      exact clear
    · rw [clear] at refused
      cases refused
  have written : f = ⟨source, f.root⟩ := by rw [← source_of_compile h]
  rw [written]
  exact compile_eq_ok (layered_of_compile h) compiles

/-- And those of the arithmetic grammar with a logical tree are all that the boolean one has. -/
theorem compile_boolean_of_isLogical (h : compile .arithmetic p source = .ok f)
    (logical : f.root.isLogical = true) : compile .boolean p source = .ok f := by
  have layered := layered_of_compile h
  have known := layered.known_of_isLogical logical fun item mem => Item.exists_ofWord mem
  have fit : ∀ item ∈ (Scan.ofText p source).items, item.Fit .boolean := by
    intro item mem
    obtain ⟨_, before, behind⟩ := fit_of_compile h item mem
    exact ⟨known item mem, before, behind⟩
  have clear := ((Context.stands_start .arithmetic).verdict_eq_none_iff _ _ _).1 (verdict_of_compile h)
  have written : f = ⟨source, f.root⟩ := by rw [← source_of_compile h]
  rw [written]
  exact (compile_of_layered clear.readable layered fit).2 clear.short clear.shallow

end

/-- The boolean grammar has the texts of the arithmetic one whose tree is logical, with that tree.
Where the arithmetic grammar refuses a text, the boolean one does so for the same reason or because
it does not know a token. -/
theorem compile_boolean_iff (p : Punctuation) (source : String) :
    (∀ f, compile .boolean p source = .ok f ↔
      compile .arithmetic p source = .ok f ∧ f.root.isLogical = true) ∧
    ∀ d, compile .arithmetic p source = .error d →
      ∃ d', compile .boolean p source = .error d' ∧ (d' = d ∨ d'.isForeign = true) := by
  constructor
  · intro f
    constructor
    · intro compiled
      exact ⟨compile_arithmetic_of_boolean compiled, isLogical_of_compile compiled⟩
    · rintro ⟨compiled, logical⟩
      exact compile_boolean_of_isLogical compiled logical
  · intro d refused
    rw [compile_eq_error_iff] at refused
    rcases verdict_start_boolean p source with same | ⟨d', refused', foreign⟩
    · exact ⟨d, (compile_eq_error_iff _ _ _ _).2 (same.trans refused), .inl rfl⟩
    · exact ⟨d', (compile_eq_error_iff _ _ _ _).2 refused', .inr foreign⟩

end Formula

/-! ## One value -/

/-- A truth value, counted, is true under either rule if it is. -/
@[simp] theorem TruthRule.holds_toInt32 (rule : TruthRule) (b : Bool) :
    rule.holds b.toInt32 = b := by
  cases rule <;> cases b <;> decide

/-- The integer value of a logical tree is its truth value, counted. -/
theorem Expr.eval_of_isLogical (rule : TruthRule) (value : String → Option Bool) {e : Expr}
    (logical : e.isLogical = true) :
    e.eval rule (fun name => (value name).map Bool.toInt32) = (e.holds value).toInt32 := by
  induction e with
  | number n => cases logical
  | bool b => rfl
  | var name =>
      simp only [eval, holds]
      cases value name <;> rfl
  | unary op operand ih =>
      simp only [isLogical, Bool.and_eq_true, decide_eq_true_eq] at logical
      obtain ⟨rfl, inner⟩ := logical
      simp only [eval, holds, UnaryOp.apply, ih inner, TruthRule.holds_toInt32]
  | binary op left right ih_left ih_right =>
      simp only [isLogical, Bool.and_eq_true] at logical
      obtain ⟨⟨known, first⟩, second⟩ := logical
      rw [eval, ih_left first, ih_right second]
      cases op with
      | or | and => simp only [holds, BinaryOp.apply, TruthRule.holds_toInt32]
      | equal | unequal =>
          simp only [holds, BinaryOp.apply]
          cases left.holds value <;> cases right.holds value <;> rfl
      | _ => cases known

namespace Tier

/-- A truth value among the values of a tier. -/
def ofBool : (t : Tier) → Bool → t.Value
  | condition, b | integer, b => b.toInt32
  | boolean, b => b

/-- A logical tree is as true at every tier as it is at the boolean one. -/
theorem isTrue_eval (t : Tier) (value : String → Option Bool) {e : Expr}
    (logical : e.isLogical = true) :
    t.isTrue (t.eval (fun name => (value name).map t.ofBool) e) = e.holds value := by
  have counted (rule : TruthRule) :
      rule.holds (e.eval rule fun name => (value name).map Bool.toInt32) = e.holds value := by
    rw [Expr.eval_of_isLogical rule value logical, TruthRule.holds_toInt32]
  cases t with
  | condition => exact counted .positive
  | integer => exact counted .nonzero
  | boolean =>
      show e.holds (fun name => (value name).map id) = _
      simp only [Option.map_id, id]

end Tier

namespace Formula

/-- A formula of the boolean grammar has one value: as an integer, under either rule of truth, it is 1
or 0 as its truth value is true or false; and read at any tier it is as true as at the boolean one. -/
theorem eval_of_compile_boolean {p : Punctuation} {source : String} {f : Formula}
    (h : compile .boolean p source = .ok f) (value : String → Option Bool) :
    (∀ rule, f.root.eval rule (fun name => (value name).map Bool.toInt32) =
      if f.root.holds value then 1 else 0) ∧
    ∀ t : Tier, compile t.grammar p source = .ok f ∧
      t.isTrue (t.eval (fun name => (value name).map t.ofBool) f.root) = f.root.holds value := by
  have logical := isLogical_of_compile h
  constructor
  · intro rule
    rw [Expr.eval_of_isLogical rule value logical]
    cases f.root.holds value <;> rfl
  · intro t
    refine ⟨?_, t.isTrue_eval value logical⟩
    cases t with
    | condition | integer => exact compile_arithmetic_of_boolean h
    | boolean => exact h

/-- Two unequal names, one of them unknown. -/
theorem eval_of_compile_boolean_unequal :
    compile .boolean .standard "!(a == b) && true" = .ok ⟨"!(a == b) && true",
      .binary .and (.unary .not (.binary .equal (.var "a") (.var "b"))) (.bool true)⟩ ∧
    ∀ rule, (Expr.binary .and (.unary .not (.binary .equal (.var "a") (.var "b"))) (.bool true)).eval
      rule (fun name => (if name = "a" then some true else none).map Bool.toInt32) = 1 := by
  have compiled : compile .boolean .standard "!(a == b) && true" = .ok ⟨"!(a == b) && true",
      .binary .and (.unary .not (.binary .equal (.var "a") (.var "b"))) (.bool true)⟩ :=
    eq_ok_of_toOption (by decide +kernel)
  refine ⟨compiled, fun rule => ?_⟩
  exact (eval_of_compile_boolean compiled fun name => if name = "a" then some true else none).1 rule

end Formula

end Criterion
