/-
# Criterion.CommandLine — one formula, evaluated or checked

A run compiles the expression, and then either writes its tree or reads the bindings and writes its
value. The first thing that goes wrong ends the run: a fault in the expression comes before any in a
binding, bindings are read in order, and when only the tree is asked for they are not read at all.
Log lines are left out; `Options.verbosity` has no part in what a run writes.
-/
import Criterion.Diagnostic.Report
import Criterion.Table
import Criterion.Tier

namespace Criterion.CommandLine

set_option autoImplicit false

/-! ## Bindings -/

inductive BindingFault where
  /-- The binding has no `=`. -/
  | shapeless (binding : String)
  /-- The text behind the first `=` is no value. -/
  | valueless (binding : String)
deriving DecidableEq, Repr

def BindingFault.message : BindingFault → String
  | shapeless binding => s!"Binding '{binding}' is not of the form name=value"
  | valueless binding => s!"Binding '{binding}' has an invalid value"

/-- Name and value of a binding `name=value`. The first `=` divides them, and white space around
either is dropped. -/
def readBinding (t : Tier) (binding : String) : Except BindingFault (String × t.Value) :=
  match binding.toList.dropWhile (· != '=') with
  | [] => .error (.shapeless binding)
  | _ :: value =>
      match t.read (Text.trim value) with
      | none => .error (.valueless binding)
      | some v => .ok (String.ofList (Text.trim (binding.toList.takeWhile (· != '='))), v)

def readBindings (t : Tier) : List String → Except BindingFault (List (String × t.Value))
  | [] => .ok []
  | binding :: rest =>
      match readBinding t binding with
      | .error fault => .error fault
      | .ok entry => (readBindings t rest).map (entry :: ·)

/-! ## A run -/

structure Options where
  expression : String
  tier : Tier
  punctuation : Punctuation
  bindings : List String
  /-- Write the tree and evaluate nothing. -/
  check : Bool
  /-- How much is logged. -/
  verbosity : Nat
deriving DecidableEq

inductive Failure where
  | diagnosed (d : Diagnostic)
  | misbound (fault : BindingFault)
deriving DecidableEq, Repr

/-- What a failed run writes, where `source` is the expression. -/
def Failure.message (source : String) : Failure → String
  | diagnosed d => d.report source
  | misbound fault => fault.message

/-- What a run writes, or why it fails. -/
def run (o : Options) : Except Failure String :=
  match Formula.compile o.tier.grammar o.punctuation o.expression with
  | .error d => .error (.diagnosed d)
  | .ok formula =>
      if o.check then .ok formula.root.text
      else
        match readBindings o.tier o.bindings with
        | .error fault => .error (.misbound fault)
        | .ok entries =>
            .ok (String.ofList (o.tier.write
              (o.tier.eval (Table.ofList entries).get? formula.root)))

/-- A run that checks writes the tree of its expression, if it has one. -/
theorem run_eq_ok_iff_of_check {o : Options} {text : String} (check : o.check = true) :
    run o = .ok text ↔
      ∃ f, Formula.compile o.tier.grammar o.punctuation o.expression = .ok f ∧
        f.root.text = text := by
  unfold run
  cases Formula.compile o.tier.grammar o.punctuation o.expression with
  | error d => simp
  | ok f => simp [check]

/-! ## What is seen of a run -/

structure Outcome where
  code : Nat
  output : String
  errors : String
deriving DecidableEq, Repr

def Outcome.ofRun (o : Options) : Outcome :=
  match run o with
  | .ok text => ⟨0, text ++ "\n", ""⟩
  | .error failure => ⟨1, "", failure.message o.expression ++ "\n"⟩

end Criterion.CommandLine
