/-
# Criterion.Proofs.Sessions — what a session has kept

A session is changed by commands. What it holds behind any number of them can be read off the
commands alone, each formula and each name by itself.

* A text at fault changes nothing (`compile_of_error`), so a run comes to the same without the
  commands that fail (`run_filter_succeeds`).
* The formula kept as `id` is the last that was compiled as `id` without a fault
  (`get?_formulas_run`). It is what its text compiles to outside of any session (`sound_run`), as
  neither values nor other formulas have a part in reading a text.
* A name has the value that it was last given, unless it has been taken from it since
  (`get?_values_run`). That is an integer or a truth value, never both (`view_boolean_of_integer`).
* A formula has the same answer as long as it is kept and its tier sees the same values for its
  inputs (`eval?_run`).
-/
import Criterion.Proofs.Dependence
import Criterion.Session

namespace Criterion

set_option autoImplicit false

namespace Compiled

/-! ## Formulas by themselves -/

/-- The tier whose values a formula reads. -/
def reads (c : Compiled) : Tier := c.tier.getD .integer

/-- The formula is what its own text compiles to with some choice of punctuation. -/
def Faithful (c : Compiled) : Prop := ∃ p, compile c.tier p c.formula.source = .ok c

theorem faithful_of_compile {t : Option Tier} {p : Punctuation} {source : String} {c : Compiled}
    (h : compile t p source = .ok c) : c.Faithful := by
  have compiled := h
  unfold compile at h
  cases parsed : Formula.compile (t.elim .standard Tier.grammar) p source with
  | error d => rw [parsed] at h; cases h
  | ok f =>
      rw [parsed] at h
      cases h
      refine ⟨p, ?_⟩
      rw [Formula.source_of_compile parsed]
      exact compiled

/-- A name has an integer or a truth value, never both. -/
theorem view_boolean_of_integer {values : Table Datum} {name : String} {n : Int32}
    (h : view .integer values name = some n) : view .boolean values name = none := by
  unfold view at *
  cases found : values.get? name with
  | none => rfl
  | some datum =>
      rw [found] at h
      cases datum with
      | integer => rfl
      | bool => cases h

/-- A formula has one answer wherever its inputs look the same at its tier. -/
theorem eval_congr {c : Compiled} {values values' : Table Datum}
    (same : ∀ name ∈ c.formula.inputs, view c.reads values name = view c.reads values' name) :
    c.eval values = c.eval values' := by
  obtain ⟨tier, f⟩ := c
  have seen : ∀ name ∈ f.root.names, view (tier.getD .integer) values name =
      view (tier.getD .integer) values' name :=
    fun name mem => same name (Expr.mem_inputs.2 mem)
  have integers (rule : TruthRule) {value value' : String → Option Int32}
      (alike : ∀ name ∈ f.root.names, value name = value' name) :
      f.root.eval rule value = f.root.eval rule value' :=
    Expr.eval_congr rule fun name mem => by rw [alike name mem]
  cases tier with
  | none => exact congrArg₂ Answer.tierless (integers .positive seen) (integers .nonzero seen)
  | some t =>
      refine congrArg (Answer.tiered t) ?_
      cases t with
      | condition => exact integers .positive seen
      | integer => exact integers .nonzero seen
      | boolean =>
          have alike : Agree false f.root.names (view .boolean values) (view .boolean values') :=
            fun name mem => congrArg (·.getD false) (seen name mem)
          exact Expr.holds_congr alike

end Compiled

namespace Session

/-! ## Commands -/

/-- What may change a session. -/
inductive Command where
  | compile (id : String) (t : Option Tier) (p : Punctuation) (source : String)
  | bind (name : String) (value : Datum)
  | unbind (name : String)
deriving DecidableEq

namespace Command

/-- Only a text can be at fault. -/
def succeeds : Command → Bool
  | .compile _ t p source => (Compiled.compile t p source).isOk
  | .bind _ _ | .unbind _ => true

/-- The formula that a command keeps as `id`, if it keeps one there. -/
def kept? (id : String) : Command → Option Compiled
  | .compile other t p source =>
      if id = other then (Compiled.compile t p source).toOption else none
  | .bind _ _ | .unbind _ => none

/-- What a command makes of the value of a name: another value or none. It may also leave it as it
is. -/
def given? (name : String) : Command → Option (Option Datum)
  | .compile _ _ _ _ => none
  | .bind other value => if name = other then some (some value) else none
  | .unbind other => if name = other then some none else none

end Command

def step (s : Session) : Command → Session
  | .compile id t p source => (s.compile id t p source).2
  | .bind name value => (s.bind name value).2
  | .unbind name => (s.unbind name).2

def run (s : Session) (commands : List Command) : Session := commands.foldl step s

/-! ## One command -/

theorem step_of_not_succeeds {s : Session} {command : Command} (h : command.succeeds = false) :
    s.step command = s := by
  cases command with
  | compile id t p source =>
      cases compiled : Compiled.compile t p source with
      | error d => rw [step, compile_of_error compiled]
      | ok c => rw [Command.succeeds, compiled] at h; cases h
  | bind | unbind => cases h

theorem get?_formulas_step (s : Session) (command : Command) (id : String) :
    (s.step command).formulas.get? id = (command.kept? id).or (s.formulas.get? id) := by
  cases command with
  | compile other t p source =>
      cases compiled : Compiled.compile t p source with
      | error d =>
          rw [step, compile_of_error compiled, Command.kept?, compiled]
          split <;> rfl
      | ok c =>
          rw [step, compile_of_ok compiled, Command.kept?, compiled, Table.get?_insert]
          split <;> rfl
  | bind | unbind => rfl

theorem get?_values_step (s : Session) (command : Command) (name : String) :
    (s.step command).values.get? name = (command.given? name).getD (s.values.get? name) := by
  cases command with
  | compile id t p source =>
      cases compiled : Compiled.compile t p source with
      | error d => rw [step, compile_of_error compiled]; rfl
      | ok c => rw [step, compile_of_ok compiled]; rfl
  | bind other value =>
      rw [step, bind, Table.get?_insert, Command.given?]
      split <;> rfl
  | unbind other =>
      rw [step, unbind, Table.get?_erase, Command.given?]
      split <;> rfl

/-! ## Any number of commands -/

theorem run_filter_succeeds (s : Session) (commands : List Command) :
    s.run (commands.filter (·.succeeds)) = s.run commands := by
  induction commands generalizing s with
  | nil => rfl
  | cons command rest ih =>
      cases outcome : command.succeeds with
      | true => rw [List.filter_cons_of_pos outcome]; exact ih (s.step command)
      | false =>
          rw [List.filter_cons_of_neg (by simp [outcome]), ih]
          exact congrArg (run · rest) (step_of_not_succeeds outcome).symm

theorem findSome?_reverse_cons {α β : Type} (f : α → Option β) (x : α) (xs : List α) :
    (x :: xs).reverse.findSome? f = (xs.reverse.findSome? f).or (f x) := by
  have last : [x].findSome? f = f x := by simp
  rw [List.reverse_cons, List.findSome?_append, last]

/-- The last formula that was kept as `id` counts. -/
theorem get?_formulas_run (s : Session) (commands : List Command) (id : String) :
    (s.run commands).formulas.get? id =
      (commands.reverse.findSome? (·.kept? id)).or (s.formulas.get? id) := by
  induction commands generalizing s with
  | nil => rfl
  | cons command rest ih =>
      rw [findSome?_reverse_cons, Option.or_assoc, ← get?_formulas_step]
      exact ih (s.step command)

example :
    ((empty.run [.compile "f" none .standard "a", .compile "f" none .standard "a +"]).formulas.get?
      "f").map (·.formula.source) = some "a" := by decide +kernel

/-- What was last made of a name's value counts. -/
theorem get?_values_run (s : Session) (commands : List Command) (name : String) :
    (s.run commands).values.get? name =
      (commands.reverse.findSome? (·.given? name)).getD (s.values.get? name) := by
  induction commands generalizing s with
  | nil => rfl
  | cons command rest ih =>
      rw [findSome?_reverse_cons, Option.getD_or, ← get?_values_step]
      exact ih (s.step command)

theorem Command.faithful_of_kept? {command : Command} {id : String} {c : Compiled}
    (h : command.kept? id = some c) : c.Faithful := by
  cases command with
  | compile other t p source =>
      rw [kept?] at h
      split at h
      · cases compiled : Compiled.compile t p source with
        | error d => rw [compiled] at h; cases h
        | ok c' =>
            rw [compiled] at h
            cases h
            exact Compiled.faithful_of_compile compiled
      · cases h
  | bind | unbind => cases h

/-- Whatever is kept is what its text compiles to. -/
def Sound (s : Session) : Prop := ∀ id c, s.formulas.get? id = some c → c.Faithful

theorem sound_empty : empty.Sound := by
  intro id c kept
  cases kept

theorem sound_step {s : Session} (sound : s.Sound) (command : Command) :
    (s.step command).Sound := by
  intro id c kept
  rw [get?_formulas_step] at kept
  obtain new | ⟨-, old⟩ := Option.or_eq_some_iff.1 kept
  · exact Command.faithful_of_kept? new
  · exact sound id c old

theorem sound_run {s : Session} (sound : s.Sound) (commands : List Command) :
    (s.run commands).Sound := by
  induction commands generalizing s with
  | nil => exact sound
  | cons command rest ih => exact ih (sound_step sound command)

/-- Commands that leave a formula and what its tier sees of its inputs as they are leave its
answer. -/
theorem eval?_run {s : Session} {commands : List Command} {id : String}
    (spared : ∀ command ∈ commands, command.kept? id = none)
    (same : ∀ c, s.formulas.get? id = some c → ∀ name ∈ c.formula.inputs,
      Compiled.view c.reads (s.run commands).values name = Compiled.view c.reads s.values name) :
    (s.run commands).eval? id = s.eval? id := by
  have kept : (s.run commands).formulas.get? id = s.formulas.get? id := by
    rw [get?_formulas_run, List.findSome?_eq_none_iff.2 fun command mem =>
      spared command (List.mem_reverse.1 mem), Option.none_or]
  rw [eval?, eval?, kept]
  cases found : s.formulas.get? id with
  | none => rfl
  | some c => exact congrArg some (Compiled.eval_congr (same c found))

end Session

end Criterion
