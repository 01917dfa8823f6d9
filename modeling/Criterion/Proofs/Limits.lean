/-
# Criterion.Proofs.Limits — when only a limit can be in the way

Tokens that have a tree lead a reader from start to end. If each of them is moreover known to the
grammar and stands between spaces where it has to (`Item.Fit`), no check can object to one but those
for depth and length. So a text of such tokens compiles to their tree or is at fault for a limit, and
compiles if it keeps to both (`Formula.compile_of_layered`).
-/
import Criterion.Proofs.Places
import Criterion.Proofs.Language

namespace Criterion

set_option autoImplicit false

/-- Whether the fault is that a limit is exceeded. -/
def Diagnostic.isLimit : Diagnostic → Bool
  | .grammar (.tooDeep _ _) | .grammar (.tooLong _ _) => true
  | _ => false

namespace Item

/-- The grammar knows the token, and it stands between spaces if it has to. -/
structure Fit (g : Grammar) (item : Item) : Prop where
  known : item.foreign g = none
  before : item.crampedBefore = none
  behind : item.crampedAfter = none

theorem known_congr {g : Grammar} {item copy : Item} (key : copy.key = item.key)
    (known : item.foreign g = none) : copy.foreign g = none := by
  have role : copy.role = item.role := congrArg Prod.fst key
  have word : copy.token.word = item.token.word := congrArg Prod.snd key
  rw [foreign_eq_none_iff] at known ⊢
  intro boolean
  obtain ⟨number, complement, negation, operators⟩ := known boolean
  exact ⟨word ▸ number, role ▸ complement, role ▸ negation, role ▸ operators⟩

/-- What fits does so wherever it means the same, with the same white space about an operator. -/
theorem Fit.congr {g : Grammar} {item copy : Item} (fit : item.Fit g) (key : copy.key = item.key)
    (spaces : ∀ op, item.role = .binary op →
      copy.token.spacedBefore = item.token.spacedBefore ∧
        copy.token.spacedAfter = item.token.spacedAfter) : copy.Fit g := by
  have role : copy.role = item.role := congrArg Prod.fst key
  refine ⟨known_congr key fit.known, ?_, ?_⟩
  · apply copy.crampedBefore_eq_none_iff.2
    intro op binary
    rw [role] at binary
    exact (spaces op binary).1.trans (item.crampedBefore_eq_none_iff.1 fit.before op binary)
  · apply copy.crampedAfter_eq_none_iff.2
    intro op binary
    rw [role] at binary
    exact (spaces op binary).2.trans (item.crampedAfter_eq_none_iff.1 fit.behind op binary)

/-- Parentheses fit everywhere. -/
theorem fit_of_paren (g : Grammar) {item : Item}
    (key : item.key = (.opening, .openParen) ∨ item.key = (.closing, .closeParen)) :
    item.Fit g := by
  obtain ⟨role, token⟩ := item
  have number : ∀ n, token.word ≠ .number n := by
    intro n word
    rcases key with key | key <;> cases word.symm.trans (congrArg Prod.snd key)
  have paren : role = .opening ∨ role = .closing :=
    key.imp (congrArg Prod.fst) (congrArg Prod.fst)
  rcases paren with rfl | rfl <;> exact ⟨foreign_eq_none g number rfl, rfl, rfl⟩

end Item

namespace Context

variable {c : Context}

/-- A token that fits, where a reader may pass it, can only be too deep or one too many. -/
theorem objection_of_fit {token : Token} {next : Stance}
    (settled : ∀ before, c.previous = some before → before.crampedAfter = none)
    (fit : (c.item token).Fit c.grammar)
    (step : c.stance.step (c.item token).role = some next) :
    c.objection token = none ∨
      ∃ cause, c.objection token = some cause ∧ (Diagnostic.grammar cause).isLimit = true := by
  obtain ⟨some_nesting, placed⟩ := (c.stance_step_isSome_iff _).1 ⟨next, step⟩
  obtain ⟨nesting, nested⟩ := Option.isSome_iff_exists.1 some_nesting
  have still : c.previous.bind Item.crampedAfter = none := Option.bind_eq_none_iff.2 settled
  simp only [objection, unfit, still, fit.known, fit.before, placed, Option.none_or, Option.or_none]
  cases depth : c.misnested (c.item token) with
  | some cause =>
      refine .inr ⟨cause, Option.some_or, ?_⟩
      simp only [misnested, nested] at depth
      split at depth <;> cases depth
      rfl
  | none =>
      rw [Option.none_or]
      cases length : c.overlong (c.item token) with
      | none => exact .inl rfl
      | some cause =>
          refine .inr ⟨cause, rfl, ?_⟩
          unfold overlong at length
          split at length <;> cases length
          rfl

/-- Tokens that fit and lead a reader to the end can only exceed a limit. -/
theorem Stands.verdict_of_fit {roles : List Role} (h : c.Stands roles) (length : Nat)
    (tokens : List Token) (settled : ∀ before, c.previous = some before → before.crampedAfter = none)
    (walked : c.stance.walk ((Item.inOrder (c.previous.map Item.role) tokens).map Item.role) =
      some .done)
    (fit : ∀ item ∈ Item.inOrder (c.previous.map Item.role) tokens, item.Fit c.grammar) :
    c.verdict length none tokens = none ∨
      ∃ d, c.verdict length none tokens = some d ∧ d.isLimit = true := by
  induction tokens generalizing c roles with
  | nil => exact .inl ((ending_eq_none_iff c length none).2 ⟨settled, rfl, Option.some.inj walked⟩)
  | cons token rest ih =>
      have head : Item.inOrder (c.previous.map Item.role) (token :: rest) =
          c.item token :: Item.inOrder ((c.advance token).previous.map Item.role) rest := rfl
      rw [head] at walked fit
      obtain ⟨here, behind⟩ := List.forall_mem_cons.1 fit
      rw [List.map_cons, Stance.walk_cons, Option.bind_eq_some_iff] at walked
      obtain ⟨next, step, walked⟩ := walked
      rw [verdict]
      rcases objection_of_fit settled here step with clear | ⟨cause, objection, limit⟩
      · rw [clear]
        obtain rfl := Option.some.inj (step.symm.trans (h.stance_advance clear))
        refine ih (h.advance clear) (fun before found => ?_) walked behind
        cases found
        exact here.behind
      · rw [objection]
        exact .inr ⟨_, rfl, limit⟩

end Context

namespace Formula

section

variable {g : Grammar} {p : Punctuation} {source : String}

/-- The tokens of a formula fit. -/
theorem fit_of_compile {f : Formula} (h : compile g p source = .ok f) :
    ∀ item ∈ (Scan.ofText p source).items, item.Fit g := by
  have clear := ((Context.stands_start g).verdict_eq_none_iff _ _ _).1 (verdict_of_compile h)
  exact fun item mem => ⟨clear.known item mem, clear.before item mem, clear.behind item mem⟩

/-- A text that compiles does so to any tree of its tokens, as they have no other. -/
theorem compile_eq_ok {e : Expr} (layered : Layered 0 (Scan.ofText p source).items e)
    (compiles : ∃ f, compile g p source = .ok f) : compile g p source = .ok ⟨source, e⟩ := by
  obtain ⟨f, compiled⟩ := compiles
  have root : f.root = e := (layered_of_compile compiled).eq_of_layered layered
  have written : f.source = source := source_of_compile compiled
  rw [compiled, ← root, ← written]

/-- Tokens that fit and have a tree compile to it unless a limit is exceeded. -/
theorem compile_of_layered {e : Expr} (readable : (Scan.ofText p source).fault = none)
    (layered : Layered 0 (Scan.ofText p source).items e)
    (fit : ∀ item ∈ (Scan.ofText p source).items, item.Fit g) :
    (compile g p source = .ok ⟨source, e⟩ ∨
      ∃ d, compile g p source = .error d ∧ d.isLimit = true) ∧
    (((Scan.ofText p source).items.map Item.role).countP (· ≠ .value) ≤ 1024 →
      (∀ roles, roles <+: (Scan.ofText p source).items.map Item.role → depthBehind roles ≤ 64) →
      compile g p source = .ok ⟨source, e⟩) := by
  have walked := layered.derives.walk 0
  constructor
  · have verdict := (Context.stands_start g).verdict_of_fit source.toList.length
      (Scan.ofText p source).tokens (fun _ found => (by cases found)) walked fit
    rw [← readable] at verdict
    rcases verdict with clear | ⟨d, fault, limit⟩
    · exact .inl (compile_eq_ok layered ((exists_compile_eq_ok_iff g p source).2 clear))
    · exact .inr ⟨d, (compile_eq_error_iff g p source d).2 fault, limit⟩
  · intro short shallow
    have clear : (Context.start g).Faultless [] (Scan.ofText p source).fault
        (Scan.ofText p source).items :=
      ⟨readable, walked, fun item mem => (fit item mem).known,
        fun item mem => (fit item mem).before, fun item mem => (fit item mem).behind, short,
        shallow⟩
    have verdict := ((Context.stands_start g).verdict_eq_none_iff source.toList.length _ _).2 clear
    exact compile_eq_ok layered ((exists_compile_eq_ok_iff g p source).2 verdict)

end

end Formula

end Criterion
