/-
# Criterion.CommandLine.Arguments — the words of a command line

The words are options, in any order, and one expression. An option is written in full or as one
letter; one that takes a value has it behind `=`, directly behind the letter, or as the next word.
Letters that take no value may share a word. Behind the word `--` there are no options, so an
expression may begin with a hyphen. `parse?` answers `none` for words that are no such command line.
The texts for help, version and misuse are left out, and so are the options that ask for them.
-/
import Criterion.CommandLine

namespace Criterion.CommandLine

set_option autoImplicit false

/-- An option with a value. -/
inductive Setting where
  | tier
  | punctuation
  | binding
deriving DecidableEq, Repr

/-- An option without a value. -/
inductive Switch where
  | check
  | verbose
deriving DecidableEq, Repr

/-- What the words so far have settled. -/
structure Draft where
  expression : Option String
  tier : Option Tier
  punctuation : Option String
  bindings : List String
  check : Bool
  verbosity : Nat
deriving DecidableEq, Repr

namespace Draft

def blank : Draft := ⟨none, none, none, [], false, 0⟩

/-- Only bindings may be given more than once. -/
def set (d : Draft) (value : String) : Setting → Option Draft
  | .tier =>
      match d.tier, Tier.ofName? value with
      | none, some t => some { d with tier := some t }
      | _, _ => none
  | .punctuation =>
      if d.punctuation.isSome then none else some { d with punctuation := some value }
  | .binding => some { d with bindings := d.bindings ++ [value] }

def switch (d : Draft) : Switch → Option Draft
  | .check => if d.check then none else some { d with check := true }
  | .verbose => some { d with verbosity := d.verbosity + 1 }

def express (d : Draft) (text : String) : Option Draft :=
  if d.expression.isSome then none else some { d with expression := some text }

/-- The options of a draft; only the expression has to be given. -/
def options? (d : Draft) : Option Options :=
  d.expression.map fun expression =>
    { expression := expression
      tier := d.tier.getD .condition
      punctuation := d.punctuation.elim .standard fun marks => .ofList marks.toList
      bindings := d.bindings
      check := d.check
      verbosity := d.verbosity }

end Draft

/-! ## Words -/

def settingOfName? : String → Option Setting
  | "tier" => some .tier
  | "punctuation" => some .punctuation
  | "bind" => some .binding
  | _ => none

def switchOfName? : String → Option Switch
  | "check" => some .check
  | "verbose" => some .verbose
  | _ => none

def settingOfLetter? : Char → Option Setting
  | 't' => some .tier
  | 'p' => some .punctuation
  | 'b' => some .binding
  | _ => none

def switchOfLetter? : Char → Option Switch
  | 'c' => some .check
  | 'v' => some .verbose
  | _ => none

/-- A draft, and the option whose value is the next word. -/
abbrev Pending := Draft × Option Setting

/-- A word of letters, without its hyphen. -/
def readLetters (d : Draft) : List Char → Option Pending
  | [] => some (d, none)
  | letter :: rest =>
      match switchOfLetter? letter, settingOfLetter? letter with
      | some switch, _ => (d.switch switch).bind fun d => readLetters d rest
      | none, some setting =>
          match rest with
          | [] => some (d, some setting)
          | '=' :: value => (d.set (String.ofList value) setting).map (·, none)
          | value => (d.set (String.ofList value) setting).map (·, none)
      | none, none => none

/-- An option written in full, without its hyphens. -/
def readName (d : Draft) (word : List Char) : Option Pending :=
  let name := String.ofList (word.takeWhile (· != '='))
  match word.dropWhile (· != '=') with
  | _ :: value =>
      (settingOfName? name).bind fun setting => (d.set (String.ofList value) setting).map (·, none)
  | [] =>
      match switchOfName? name with
      | some switch => (d.switch switch).map (·, none)
      | none => (settingOfName? name).map fun setting => (d, some setting)

/-- A word that may be an option; a single hyphen is none. -/
def readWord (d : Draft) (word : String) : Option Pending :=
  match word.toList with
  | '-' :: '-' :: name => readName d name
  | '-' :: letter :: letters => readLetters d (letter :: letters)
  | _ => (d.express word).map (·, none)

/-- All words, where `pending` waits for the next one. A word that begins with a hyphen is no
value. -/
def readWords (d : Draft) (pending : Option Setting) : List String → Option Draft
  | [] => if pending.isSome then none else some d
  | word :: rest =>
      match pending with
      | some setting =>
          if word.toList.head? = some '-' ∧ word ≠ "-" then none
          else (d.set word setting).bind fun d => readWords d none rest
      | none =>
          if word = "--" then rest.foldlM Draft.express d
          else (readWord d word).bind fun next => readWords next.1 next.2 rest

def parse? (words : List String) : Option Options :=
  (readWords .blank none words).bind Draft.options?

/-- What is seen of a command line, if the words are one. -/
def Outcome.ofWords (words : List String) : Option Outcome :=
  (parse? words).map Outcome.ofRun

end Criterion.CommandLine
