/-
# Criterion.Session — formulas and values kept by name

A session keeps compiled formulas under names of their own and values for the names in them. The
values of both kinds share one table, so a name has an integer or a truth value but not both; a
formula is evaluated on those of its tier. A formula may also be kept without a tier; it reads
integers and answers for both truth rules.
-/
import Criterion.Table
import Criterion.Tier

namespace Criterion

set_option autoImplicit false

/-- The value of a name in a session. -/
inductive Datum where
  | integer (n : Int32)
  | bool (b : Bool)
deriving DecidableEq, Repr

/-- The value at a tier, if the datum is of its kind. -/
def Datum.at? : (t : Tier) → Datum → Option t.Value
  | .condition, .integer n => some n
  | .integer, .integer n => some n
  | .boolean, .bool b => some b
  | _, _ => none

/-- A formula and what it is for, if that has been settled. -/
structure Compiled where
  tier : Option Tier
  formula : Formula
deriving DecidableEq, Repr

/-- The value of a formula. Without a tier it is an integer under each truth rule. -/
inductive Answer where
  | tiered (t : Tier) (value : t.Value)
  | tierless (positive nonzero : Int32)

namespace Compiled

def compile (t : Option Tier) (p : Punctuation) (source : String) : Except Diagnostic Compiled :=
  (Formula.compile (t.elim .standard Tier.grammar) p source).map fun formula => ⟨t, formula⟩

/-- What names mean at a tier; data of the wrong kind are not seen. -/
def view (t : Tier) (values : Table Datum) (name : String) : Option t.Value :=
  (values.get? name).bind (Datum.at? t)

def eval (c : Compiled) (values : Table Datum) : Answer :=
  match c.tier with
  | some t => .tiered t (t.eval (view t values) c.formula.root)
  | none =>
      let names : String → Option Int32 := view .integer values
      .tierless (c.formula.root.eval .positive names) (c.formula.root.eval .nonzero names)

end Compiled

structure Session where
  formulas : Table Compiled
  values : Table Datum
deriving Repr

namespace Session

def empty : Session := ⟨.empty, .empty⟩

/-- Compiles a text and keeps the formula as `id`. A text at fault changes nothing. -/
def compile (s : Session) (id : String) (t : Option Tier) (p : Punctuation) (source : String) :
    Except Diagnostic Compiled × Session :=
  match Compiled.compile t p source with
  | .ok c => (.ok c, { s with formulas := s.formulas.insert id c })
  | .error d => (.error d, s)

/-- Gives a name a value; the answer is the value it had. -/
def bind (s : Session) (name : String) (value : Datum) : Option Datum × Session :=
  (s.values.get? name, { s with values := s.values.insert name value })

/-- Takes a name its value; the answer is the value it had. -/
def unbind (s : Session) (name : String) : Option Datum × Session :=
  (s.values.get? name, { s with values := s.values.erase name })

/-- The value of the formula kept as `id`. -/
def eval? (s : Session) (id : String) : Option Answer :=
  (s.formulas.get? id).map fun c => c.eval s.values

theorem compile_of_error {s : Session} {id : String} {t : Option Tier} {p : Punctuation}
    {source : String} {d : Diagnostic} (h : Compiled.compile t p source = .error d) :
    s.compile id t p source = (.error d, s) := by
  unfold compile
  rw [h]

theorem compile_of_ok {s : Session} {id : String} {t : Option Tier} {p : Punctuation}
    {source : String} {c : Compiled} (h : Compiled.compile t p source = .ok c) :
    s.compile id t p source = (.ok c, { s with formulas := s.formulas.insert id c }) := by
  unfold compile
  rw [h]

end Session

end Criterion
