/-
# Criterion.Proofs.Runs — what a run answers, and which fault it tells of

A run can fail in the expression and in any of its bindings, and tells of one fault. The expression
comes first, and if only its tree is asked for nothing comes after it. Then the bindings are read in
order, and the first that cannot be read ends the run (`readBindings_cases`).

If all can be read, the last binding that names a name gives it its value
(`get?_ofList_eq_some_iff`), and a name that none of them names has no value
(`get?_ofList_eq_none_iff`). Their order can matter only if two of them name the same
(`lastBinds_iff_of_distinct`).
-/
import Criterion.CommandLine
import Criterion.Proofs.Parse
import Mathlib.Data.List.Perm.Basic
import Mathlib.Data.List.TakeWhile

namespace Criterion.CommandLine

set_option autoImplicit false

/-! ## One binding -/

/-- The binding is a name and the text of its value with `=` between them, each with white space
around it. It is the first `=` that counts. -/
def Gives (binding name : String) (value : List Char) : Prop :=
  ∃ left right, binding.toList = left ++ '=' :: right ∧ '=' ∉ left ∧
    Text.trim left = name.toList ∧ Text.trim right = value

def Names (binding name : String) : Prop := ∃ value, Gives binding name value

def Binds (t : Tier) (binding name : String) (v : t.Value) : Prop :=
  ∃ value, Gives binding name value ∧ t.read value = some v

def Malformed (t : Tier) (binding : String) : Prop :=
  '=' ∉ binding.toList ∨ ∃ name value, Gives binding name value ∧ t.read value = none

/-- What is wrong with a malformed binding. -/
def BindingFault.of (binding : String) : BindingFault :=
  if '=' ∈ binding.toList then .valueless binding else .shapeless binding

section

variable {t : Tier} {binding name other : String}

theorem bne_of_not_mem {cs : List Char} (h : '=' ∉ cs) : ∀ c ∈ cs, (c != '=') = true := by
  intro c mem
  simpa using fun same : c = '=' => h (same ▸ mem)

theorem cut_at_first {text left right : List Char} (written : text = left ++ '=' :: right)
    (first : '=' ∉ left) :
    text.takeWhile (· != '=') = left ∧ text.dropWhile (· != '=') = '=' :: right := by
  subst written
  constructor
  · rw [List.takeWhile_append_of_pos (bne_of_not_mem first)]
    simp
  · rw [List.dropWhile_append_of_pos (bne_of_not_mem first)]
    simp

theorem Gives.unique {value value' : List Char} (h : Gives binding name value)
    (h' : Gives binding other value') : other = name ∧ value' = value := by
  obtain ⟨left, right, written, first, named, rfl⟩ := h
  obtain ⟨left', right', written', first', named', rfl⟩ := h'
  obtain ⟨run, rest⟩ := cut_at_first written first
  obtain ⟨run', rest'⟩ := cut_at_first written' first'
  have lefts : left' = left := run'.symm.trans run
  have rights : right' = right := List.tail_eq_of_cons_eq (rest'.symm.trans rest)
  subst lefts rights
  exact ⟨String.toList_inj.1 (named'.symm.trans named), rfl⟩

theorem Gives.shaped {value : List Char} (h : Gives binding name value) :
    '=' ∈ binding.toList := by
  obtain ⟨left, right, written, _⟩ := h
  simp [written]

theorem exists_gives (h : '=' ∈ binding.toList) : ∃ name value, Gives binding name value := by
  obtain ⟨left, right, written, first⟩ := List.eq_append_cons_of_mem h
  exact ⟨String.ofList (Text.trim left), _, left, right, written, first,
    String.toList_ofList.symm, rfl⟩

theorem readBinding_of_shapeless (h : '=' ∉ binding.toList) :
    readBinding t binding = .error (.shapeless binding) := by
  have rest : binding.toList.dropWhile (· != '=') = [] :=
    List.dropWhile_eq_nil_iff.2 (bne_of_not_mem h)
  rewrite [readBinding, rest]
  rfl

theorem readBinding_of_gives {value : List Char} (h : Gives binding name value) :
    readBinding t binding =
      match t.read value with
      | none => .error (.valueless binding)
      | some v => .ok (name, v) := by
  obtain ⟨left, right, written, first, named, rfl⟩ := h
  obtain ⟨run, rest⟩ := cut_at_first written first
  rewrite [readBinding, rest, run, named, String.ofList_toList]
  rfl

theorem readBinding_eq_error (h : Malformed t binding) :
    readBinding t binding = .error (.of binding) := by
  obtain shapeless | ⟨name, value, gives, unread⟩ := h
  · rw [readBinding_of_shapeless shapeless, BindingFault.of, if_neg shapeless]
  · rw [readBinding_of_gives gives, unread, BindingFault.of, if_pos gives.shaped]

theorem exists_binds (h : ¬Malformed t binding) :
    ∃ name v, Binds t binding name v ∧ readBinding t binding = .ok (name, v) := by
  obtain ⟨shaped, readable⟩ := not_or.1 h
  obtain ⟨name, value, gives⟩ := exists_gives (not_not.1 shaped)
  cases read : t.read value with
  | none => exact absurd ⟨name, value, gives, read⟩ readable
  | some v =>
    refine ⟨name, v, ⟨value, gives, read⟩, ?_⟩
    rw [readBinding_of_gives gives, read]

theorem Binds.not_malformed {v : t.Value} (h : Binds t binding name v) : ¬Malformed t binding := by
  obtain ⟨value, gives, read⟩ := h
  rintro (shapeless | ⟨_, _, gives', unread⟩)
  · exact shapeless gives.shaped
  · obtain ⟨rfl, rfl⟩ := gives.unique gives'
    rw [read] at unread
    cases unread

theorem Binds.names_iff {v : t.Value} (h : Binds t binding name v) :
    Names binding other ↔ name = other := by
  obtain ⟨value, gives, _⟩ := h
  constructor
  · rintro ⟨value', gives'⟩
    exact (gives'.unique gives).1
  · rintro rfl
    exact ⟨value, gives⟩

theorem Binds.binds_iff {v w : t.Value} (h : Binds t binding name v) :
    Binds t binding other w ↔ name = other ∧ v = w := by
  obtain ⟨value, gives, read⟩ := h
  constructor
  · rintro ⟨value', gives', read'⟩
    obtain ⟨rfl, rfl⟩ := gives.unique gives'
    exact ⟨rfl, Option.some.inj (read.symm.trans read')⟩
  · rintro ⟨rfl, rfl⟩
    exact ⟨value, gives, read⟩

end

/-! ## Several bindings -/

section

variable {t : Tier} {bindings bindings' : List String} {name : String} {v : t.Value}

/-- All bindings can be read, or the first malformed one is the one that is told of. -/
theorem readBindings_cases (t : Tier) (bindings : List String) :
    ((∀ b ∈ bindings, ¬Malformed t b) ∧ ∃ entries, readBindings t bindings = .ok entries) ∨
      ∃ before b after, bindings = before ++ b :: after ∧ (∀ x ∈ before, ¬Malformed t x) ∧
        Malformed t b ∧ readBindings t bindings = .error (.of b) := by
  induction bindings with
  | nil => exact .inl ⟨by simp, [], rfl⟩
  | cons binding rest ih =>
    by_cases malformed : Malformed t binding
    · -- Nothing behind it is read, so the first to fail is the first that is malformed.
      refine .inr ⟨[], binding, rest, rfl, by simp, malformed, ?_⟩
      rw [readBindings, readBinding_eq_error malformed]
    · obtain ⟨name, v, _, read⟩ := exists_binds malformed
      have step : readBindings t (binding :: rest) =
          (readBindings t rest).map ((name, v) :: ·) := by
        rw [readBindings, read]
      obtain ⟨sound, entries, more⟩ | ⟨before, b, after, rfl, sound, found, more⟩ := ih
      · refine .inl ⟨?_, (name, v) :: entries, ?_⟩
        · simpa using ⟨malformed, sound⟩
        · rw [step, more]
          rfl
      · refine .inr ⟨binding :: before, b, after, rfl, ?_, found, ?_⟩
        · simpa using ⟨malformed, sound⟩
        · rw [step, more]
          rfl

theorem exists_readBindings (h : ∀ b ∈ bindings, ¬Malformed t b) :
    ∃ entries, readBindings t bindings = .ok entries := by
  obtain ⟨_, read⟩ | ⟨before, b, after, rfl, _, malformed, _⟩ := readBindings_cases t bindings
  · exact read
  · exact absurd malformed (h b (by simp))

/-- What it takes to have read all of several bindings. -/
theorem readBindings_cons_eq_ok {binding : String} {rest : List String}
    {entries : List (String × t.Value)} (h : readBindings t (binding :: rest) = .ok entries) :
    ∃ name v more, Binds t binding name v ∧ readBindings t rest = .ok more ∧
      entries = (name, v) :: more := by
  have well : ¬Malformed t binding := by
    intro malformed
    rw [readBindings, readBinding_eq_error malformed] at h
    cases h
  obtain ⟨name, v, binds, read⟩ := exists_binds well
  rw [readBindings, read] at h
  cases last : readBindings t rest with
  | error fault =>
    rw [last] at h
    cases h
  | ok more =>
    rw [last] at h
    exact ⟨name, v, more, binds, rfl, (Except.ok.inj h).symm⟩

theorem get?_ofList_eq_none_iff {entries : List (String × t.Value)}
    (h : readBindings t bindings = .ok entries) :
    (Table.ofList entries).get? name = none ↔ ∀ b ∈ bindings, ¬Names b name := by
  induction bindings generalizing entries with
  | nil =>
    obtain rfl : [] = entries := Except.ok.inj h
    simp [Table.ofList, Table.get?_empty]
  | cons binding rest ih =>
    obtain ⟨other, w, more, binds, read, rfl⟩ := readBindings_cons_eq_ok h
    rw [Table.get?_ofList_cons, Option.or_eq_none_iff, ih read, List.forall_mem_cons,
      binds.names_iff, and_comm]
    simp

/-- The last binding that names `name` gives it the value `v`. -/
def LastBinds (t : Tier) (bindings : List String) (name : String) (v : t.Value) : Prop :=
  ∃ before b after, bindings = before ++ b :: after ∧ Binds t b name v ∧
    ∀ later ∈ after, ¬Names later name

theorem lastBinds_cons {binding : String} {rest : List String} :
    LastBinds t (binding :: rest) name v ↔
      LastBinds t rest name v ∨ (∀ later ∈ rest, ¬Names later name) ∧ Binds t binding name v := by
  constructor
  · rintro ⟨before, b, after, split, binds, last⟩
    cases before with
    | nil =>
      obtain ⟨rfl, rfl⟩ := List.cons.inj split
      exact .inr ⟨last, binds⟩
    | cons first before =>
      obtain ⟨rfl, rfl⟩ := List.cons.inj split
      exact .inl ⟨before, b, after, rfl, binds, last⟩
  · rintro (⟨before, b, after, rfl, binds, last⟩ | ⟨last, binds⟩)
    · exact ⟨binding :: before, b, after, rfl, binds, last⟩
    · exact ⟨[], binding, rest, rfl, binds, last⟩

theorem get?_ofList_eq_some_iff {entries : List (String × t.Value)}
    (h : readBindings t bindings = .ok entries) :
    (Table.ofList entries).get? name = some v ↔ LastBinds t bindings name v := by
  induction bindings generalizing entries with
  | nil =>
    obtain rfl : [] = entries := Except.ok.inj h
    simp [Table.ofList, Table.get?_empty, LastBinds]
  | cons binding rest ih =>
    obtain ⟨other, w, more, binds, read, rfl⟩ := readBindings_cons_eq_ok h
    rw [Table.get?_ofList_cons, Option.or_eq_some_iff, ih read, get?_ofList_eq_none_iff read,
      lastBinds_cons, binds.binds_iff]
    simp

/-- No two of the bindings name the same. -/
def Distinct (bindings : List String) : Prop :=
  bindings.Pairwise fun b b' => ∀ name, Names b name → ¬Names b' name

theorem Distinct.perm (h : Distinct bindings) (order : bindings.Perm bindings') :
    Distinct bindings' :=
  (order.pairwise_iff fun apart name named' named => apart name named named').1 h

/-- Among distinct names, being the last is no condition. -/
theorem lastBinds_iff_of_distinct (h : Distinct bindings) :
    LastBinds t bindings name v ↔ ∃ b ∈ bindings, Binds t b name v := by
  constructor
  · rintro ⟨before, b, after, rfl, binds, _⟩
    exact ⟨b, by simp, binds⟩
  · rintro ⟨b, mem, binds⟩
    obtain ⟨before, after, rfl⟩ := List.append_of_mem mem
    have behind := (List.pairwise_cons.1 (List.pairwise_append.1 h).2.1).1
    exact ⟨before, b, after, rfl, binds, fun later among => behind later among name
      (binds.names_iff.2 rfl)⟩

theorem lastBinds_perm (h : Distinct bindings) (order : bindings.Perm bindings') :
    LastBinds t bindings' name v ↔ LastBinds t bindings name v := by
  rw [lastBinds_iff_of_distinct h, lastBinds_iff_of_distinct (h.perm order)]
  simp only [order.mem_iff]

theorem get?_ofList_perm {entries entries' : List (String × t.Value)}
    (read : readBindings t bindings = .ok entries)
    (read' : readBindings t bindings' = .ok entries') (h : Distinct bindings)
    (order : bindings.Perm bindings') :
    (Table.ofList entries').get? = (Table.ofList entries).get? := by
  funext name
  apply Option.ext
  intro v
  rw [get?_ofList_eq_some_iff read, get?_ofList_eq_some_iff read', lastBinds_perm h order]

end

/-! ## The whole run -/

/-- What a run answers: the text that it writes, or that of its fault. -/
def answer (o : Options) : Except String String :=
  (run o).mapError (Failure.message o.expression)

section

variable {o : Options} {f : Formula}

theorem answer_of_error {d : Diagnostic}
    (h : Formula.compile o.tier.grammar o.punctuation o.expression = .error d) :
    answer o = .error (d.report o.expression) := by
  unfold answer run
  rw [h]
  rfl

theorem answer_of_check (h : Formula.compile o.tier.grammar o.punctuation o.expression = .ok f)
    (check : o.check = true) : answer o = .ok f.root.text := by
  unfold answer run
  rw [h]
  simp only [check, if_true]
  rfl

theorem answer_of_misbound (h : Formula.compile o.tier.grammar o.punctuation o.expression = .ok f)
    (evaluated : o.check = false) {fault : BindingFault}
    (read : readBindings o.tier o.bindings = .error fault) : answer o = .error fault.message := by
  unfold answer run
  rw [h]
  simp only [evaluated, read]
  rfl

theorem answer_of_bound (h : Formula.compile o.tier.grammar o.punctuation o.expression = .ok f)
    (evaluated : o.check = false) {entries : List (String × o.tier.Value)}
    (read : readBindings o.tier o.bindings = .ok entries) :
    answer o =
      .ok (String.ofList (o.tier.write (o.tier.eval (Table.ofList entries).get? f.root))) := by
  unfold answer run
  rw [h]
  simp only [evaluated, read]
  rfl

theorem answer_perm {text : String} {bindings' : List String} (order : o.bindings.Perm bindings')
    (distinct : Distinct o.bindings) (h : answer o = .ok text) :
    answer { o with bindings := bindings' } = .ok text := by
  cases compiled : Formula.compile o.tier.grammar o.punctuation o.expression with
  | error d =>
    rw [answer_of_error compiled] at h
    cases h
  | ok f =>
    by_cases check : o.check = true
    · rw [answer_of_check compiled check] at h
      rw [← h]
      exact answer_of_check compiled check
    · have evaluated : o.check = false := by simpa using check
      obtain ⟨sound, entries, read⟩ | ⟨_, b, _, _, _, _, read⟩ :=
        readBindings_cases o.tier o.bindings
      · obtain ⟨entries', read'⟩ : ∃ entries', readBindings o.tier bindings' = .ok entries' :=
          exists_readBindings fun b mem => sound b (order.mem_iff.2 mem)
        have reordered := answer_of_bound (o := { o with bindings := bindings' }) compiled
          evaluated read'
        rw [reordered, get?_ofList_perm read read' distinct order, ← h,
          answer_of_bound compiled evaluated read]
      · rw [answer_of_misbound compiled evaluated read] at h
        cases h

end

theorem BindingFault.message_of (binding : String) :
    (BindingFault.of binding).message =
      if '=' ∈ binding.toList then s!"Binding '{binding}' has an invalid value"
      else s!"Binding '{binding}' is not of the form name=value" := by
  unfold BindingFault.of
  split <;> rfl

/-- A fault in the expression is told of first, whatever the bindings are, and if only the tree is
asked for they are not looked at either. Otherwise the first malformed binding is told of, whatever
is behind it; and if there is none, the value is that of the expression where the last binding of a
name counts and no other name has a value. A run that succeeds does so with the same text if its
bindings, all of different names, are put in another order. -/
theorem answer_precedence (o : Options) :
    (∀ d, Formula.compile o.tier.grammar o.punctuation o.expression = .error d →
      answer o = .error (d.report o.expression)) ∧
    (∀ f, Formula.compile o.tier.grammar o.punctuation o.expression = .ok f →
      (o.check = true → answer o = .ok f.root.text) ∧
      (o.check = false →
        ((∃ b ∈ o.bindings, Malformed o.tier b) →
          ∃ before b after, o.bindings = before ++ b :: after ∧
            (∀ x ∈ before, ¬Malformed o.tier x) ∧ Malformed o.tier b ∧
            answer o = .error
              (if '=' ∈ b.toList then s!"Binding '{b}' has an invalid value"
                else s!"Binding '{b}' is not of the form name=value")) ∧
        ((∀ b ∈ o.bindings, ¬Malformed o.tier b) →
          ∃ value : String → Option o.tier.Value,
            (∀ name v, value name = some v ↔ LastBinds o.tier o.bindings name v) ∧
            answer o = .ok (String.ofList (o.tier.write (o.tier.eval value f.root)))))) ∧
    ∀ bindings' text, o.bindings.Perm bindings' → Distinct o.bindings → answer o = .ok text →
      answer { o with bindings := bindings' } = .ok text := by
  refine ⟨fun d h => answer_of_error h, fun f h => ⟨answer_of_check h, fun evaluated => ?_⟩,
    fun bindings' text order distinct => answer_perm order distinct⟩
  obtain ⟨sound, entries, read⟩ | ⟨before, b, after, split, sound, malformed, read⟩ :=
    readBindings_cases o.tier o.bindings
  · refine ⟨fun ⟨b, mem, malformed⟩ => absurd malformed (sound b mem), fun _ => ?_⟩
    exact ⟨_, fun name v => get?_ofList_eq_some_iff read, answer_of_bound h evaluated read⟩
  · have mem : b ∈ o.bindings := by simp [split]
    have told := answer_of_misbound h evaluated read
    rw [BindingFault.message_of] at told
    exact ⟨fun _ => ⟨before, b, after, split, sound, malformed, told⟩,
      fun all => absurd malformed (all b mem)⟩

/-- A binding without `=` in front of one with a bad value; a name that is bound twice; two names
either way round. -/
theorem answer_precedence_rebound :
    answer ⟨"a - b", .integer, .standard, ["a=1", "b", "c=x=y"], false, 0⟩ =
        .error "Binding 'b' is not of the form name=value" ∧
      answer ⟨"a - b", .integer, .standard, ["a=1", " b = 2 ", "a=5"], false, 0⟩ = .ok "3" ∧
      answer ⟨"a - b", .integer, .standard, ["a=5", " b = 2 "], false, 0⟩ = .ok "3" := by
  have compiled : Formula.compile .arithmetic .standard "a - b" =
      .ok ⟨"a - b", .binary .subtract (.var "a") (.var "b")⟩ :=
    Formula.eq_ok_of_toOption (by decide +kernel)
  have one : Binds .integer "a=1" "a" (1 : Int32) :=
    ⟨['1'], ⟨['a'], ['1'], rfl, by decide, rfl, rfl⟩, rfl⟩
  have two : Binds .integer " b = 2 " "b" (2 : Int32) :=
    ⟨['2'], ⟨[' ', 'b', ' '], [' ', '2', ' '], rfl, by decide, rfl, rfl⟩, rfl⟩
  have five : Binds .integer "a=5" "a" (5 : Int32) :=
    ⟨['5'], ⟨['a'], ['5'], rfl, by decide, rfl, rfl⟩, rfl⟩
  have shapeless : Malformed .integer "b" := .inl (by decide)
  refine ⟨?_, ?_, ?_⟩
  · obtain ⟨_, runs, _⟩ :=
      answer_precedence ⟨"a - b", .integer, .standard, ["a=1", "b", "c=x=y"], false, 0⟩
    obtain ⟨before, b, after, split, sound, malformed, told⟩ :=
      ((runs _ compiled).2 rfl).1 ⟨"b", by simp, shapeless⟩
    have found : b = "b" := by
      match before with
      | [] =>
        obtain ⟨rfl, _⟩ := List.cons.inj split
        exact absurd malformed one.not_malformed
      | [_] => simp_all
      | _ :: _ :: _ => exact absurd shapeless (sound "b" (by simp_all))
    subst found
    exact told
  · obtain ⟨_, runs, _⟩ :=
      answer_precedence ⟨"a - b", .integer, .standard, ["a=1", " b = 2 ", "a=5"], false, 0⟩
    obtain ⟨value, known, answered⟩ := ((runs _ compiled).2 rfl).2
      (by simp [one.not_malformed, two.not_malformed, five.not_malformed])
    have minuend : value "a" = some (5 : Int32) :=
      (known _ _).2 ⟨["a=1", " b = 2 "], "a=5", [], rfl, five, by simp⟩
    have subtrahend : value "b" = some (2 : Int32) :=
      (known _ _).2 ⟨["a=1"], " b = 2 ", ["a=5"], rfl, two, by simp [five.names_iff]⟩
    rw [answered]
    simp only [Tier.eval, Expr.eval, minuend, subtrahend]
    have three : String.ofList (Tier.integer.write (5 - 2 : Int32)) = "3" := by decide +kernel
    exact congrArg Except.ok three
  · have straight :
        answer ⟨"a - b", .integer, .standard, [" b = 2 ", "a=5"], false, 0⟩ = .ok "3" :=
      Formula.eq_ok_of_toOption (by decide +kernel)
    obtain ⟨_, _, reordered⟩ :=
      answer_precedence ⟨"a - b", .integer, .standard, [" b = 2 ", "a=5"], false, 0⟩
    have distinct : Distinct [" b = 2 ", "a=5"] := by
      simp [Distinct, two.names_iff, five.names_iff]
    exact reordered _ _ (.swap ..) distinct straight

end Criterion.CommandLine
