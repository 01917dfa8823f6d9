/-
# Criterion.Proofs.Names — a name takes all it can

A name is read in two stretches of different characters, and only at the second is it asked how it
ends. All the same it is one run: of what a name may hold it takes as much as there is
(`Lexeme.IsRun`), it is at fault just where that ends in punctuation, and it is a truth value just
where the whole of it is `true` or `false` (`Lexeme.read_of_name`).

What a scan says of a place where a lexeme starts is what is read there, whatever came before
(`Scan.exists_of_startsAt`). So the same holds of every name in a text (`Scan.ofText_name`).
-/
import Criterion.Proofs.Pointing
import Mathlib.Data.List.Nodup

namespace Criterion

set_option autoImplicit false

/-! ## Runs -/

namespace Lexeme

/-- Letters and numbers of all scripts, `_`, and the punctuation that is chosen. -/
def InName (p : Punctuation) (c : Char) : Prop :=
  Text.isAlphabetic c = true ∨ Text.isNumeric c = true ∨ c = '_' ∨ p.contains c = true

/-- `run` stands in the text from `i` on, and goes up to the first character that is in no name. -/
structure IsRun (p : Punctuation) (text : List Char) (i : Nat) (run : List Char) : Prop where
  here : run <+: text.drop i
  inside : ∀ c ∈ run, InName p c
  ends : ∀ c, text[i + run.length]? = some c → ¬InName p c

variable {p : Punctuation} {c : Char}

theorem continuesName_iff : continuesName p c = true ↔ InName p c := by
  simp [continuesName, InName, or_assoc]

theorem joinsName_of_startsName (name : startsName c = true) : joinsName c = true := by
  rcases Bool.or_eq_true_iff.1 name with letter | line
  · simp [joinsName, letter]
  · simp [joinsName, line]

theorem isRun_of_startsName {rest tail : List Char} (name : startsName c = true)
    (run : rest.takeWhile (continuesName p) = tail) (before : List Char) :
    IsRun p (before ++ c :: rest) before.length (c :: tail) := by
  have split : tail ++ rest.dropWhile (continuesName p) = rest := by
    rw [← run, List.takeWhile_append_dropWhile]
  obtain ⟨goes_on, stops⟩ := takeWhile_append_eq_left_iff.1 (split ▸ run)
  constructor
  case here =>
    rw [List.drop_left, ← split]
    exact ⟨_, rfl⟩
  case inside =>
    refine List.forall_mem_cons.2 ⟨?_, fun d mem => continuesName_iff.1 (goes_on d mem)⟩
    exact continuesName_iff.1 (continuesName_of_joinsName p (joinsName_of_startsName name))
  case ends =>
    intro d next inside
    have text : before ++ c :: rest =
        (before ++ c :: tail) ++ rest.dropWhile (continuesName p) := by
      rw [List.append_assoc, List.cons_append, split]
    rw [text, ← List.length_append, List.getElem?_append_right (Nat.le_refl _), Nat.sub_self,
      ← List.head?_eq_getElem?] at next
    have outside := stops d next
    rw [continuesName_iff.2 inside] at outside
    cases outside

/-- There is no other run at that place. -/
theorem IsRun.eq_takeWhile {text run : List Char} {i : Nat} (h : IsRun p text i run) :
    run = (text.drop i).takeWhile (continuesName p) := by
  obtain ⟨behind, split⟩ := h.here
  rw [← split, eq_comm, takeWhile_append_eq_left_iff]
  refine ⟨fun d mem => continuesName_iff.2 (h.inside d mem), fun d next => ?_⟩
  rw [List.head?_eq_getElem?, ← Nat.sub_self run.length,
    ← List.getElem?_append_right (Nat.le_refl run.length), split, List.getElem?_drop] at next
  exact Bool.eq_false_iff.2 fun goes_on => h.ends d next (continuesName_iff.1 goes_on)

/-! ## What a run is read as -/

theorem wordOfName_iff (name : List Char) :
    (wordOfName name = .bool true ↔ name = "true".toList) ∧
    (wordOfName name = .bool false ↔ name = "false".toList) ∧
    (wordOfName name = .name (String.ofList name) ↔
      name ≠ "true".toList ∧ name ≠ "false".toList) := by
  unfold wordOfName
  split
  · next same =>
    subst same
    decide
  · next ne_true =>
    split
    · next same =>
      subst same
      decide
    · next ne_false =>
      exact ⟨⟨nofun, fun same => absurd same ne_true⟩, ⟨nofun, fun same => absurd same ne_false⟩,
        fun _ => ⟨ne_true, ne_false⟩, fun _ => rfl⟩

/-- Only the last character of the run decides whether there is a name. -/
theorem read_of_name {rest tail : List Char} (name : startsName c = true)
    (run : rest.takeWhile (continuesName p) = tail) (index : Nat) :
    read p index c rest =
      if p.contains (tail.getLast?.getD c) then
        .error (.openName (String.ofList (c :: tail)) (index + tail.length))
      else
        .ok ⟨wordOfName (c :: tail), tail⟩ := by
  have last : p.contains (tail.getLast?.getD c) = tail.getLast?.any p.contains := by
    cases tail.getLast? with
    | none => exact not_contains_of_joinsName (joinsName_of_startsName name)
    | some d => rfl
  rw [read_of_startsName p index rest name, readName_eq, run, last]

end Lexeme

/-! ## Where lexemes start -/

namespace Scan

/-- A lexeme starts at the place: that of a token, or the one that stopped the scan. -/
def StartsAt (s : Scan) (i : Nat) : Prop :=
  (∃ token ∈ s.tokens, token.start.chars = i) ∨
    ∃ cause, s.fault = some cause ∧ cause.index = i + cause.inset

variable {p : Punctuation}

/-- Where a lexeme starts, the scan goes on as it would there, behind the tokens before. -/
theorem exists_of_startsAt (o : Offset) (spaced : Bool) (cs : List Char) {i : Nat}
    (starts : (scanFrom p o spaced 0 cs).StartsAt i) :
    ∃ before c rest passed spaced', cs = before ++ c :: rest ∧ i = o.chars + before.length ∧
      Text.isBlank c = false ∧ (∀ token ∈ passed, token.stop.chars ≤ i) ∧
      scanFrom p o spaced 0 cs =
        Scan.append ⟨passed, none⟩ (scanFrom p (o.past before) spaced' 0 (c :: rest)) := by
  induction o, spaced, cs using scan_induction (p := p) with
  | nil o spaced =>
      rw [scanFrom_nil] at starts
      rcases starts with ⟨token, mem, _⟩ | ⟨cause, found, _⟩
      · cases mem
      · cases found
  | blank o spaced c rest white ih =>
      rw [scanFrom_blank p o spaced white] at starts ⊢
      obtain ⟨before, d, behind, passed, spaced', rfl, there, solid, ends, scanned⟩ := ih starts
      refine ⟨c :: before, d, behind, passed, spaced', rfl, ?_, solid, ends, ?_⟩
      · rw [there, List.length_cons, Nat.add_comm before.length, ← Nat.add_assoc]
        rfl
      · rw [scanned, ← Offset.past_append]
        rfl
  | fault o spaced c rest cause solid read =>
      refine ⟨[], c, rest, [], spaced, rfl, ?_, solid, fun _ mem => (by cases mem), rfl⟩
      rw [scanFrom_fault p o spaced solid read] at starts
      rcases starts with ⟨token, mem, _⟩ | ⟨_, found, index⟩
      · cases mem
      · cases found
        have begins := (Lexeme.begins_of_read read).index_eq
        simp only [List.length_nil]
        omega
  | lexeme o spaced c l behind solid read ih =>
      have first : o.chars = o.chars + ([] : List Char).length := rfl
      by_cases here : i = o.chars
      · exact ⟨[], c, l.tail ++ behind, [], spaced, rfl, here.trans first, solid,
          fun _ mem => (by cases mem), rfl⟩
      · rw [scanFrom_lexeme_append spaced solid read] at starts ⊢
        have later : (scanFrom p (o.past (c :: l.tail)) false 0 behind).StartsAt i := by
          rcases starts with ⟨token, mem, start⟩ | fault
          · rcases List.mem_cons.1 mem with rfl | mem
            · exact absurd start.symm here
            · exact .inl ⟨token, mem, start⟩
          · exact .inr fault
        obtain ⟨before, d, rest, passed, spaced', rfl, there, solid', ends, scanned⟩ := ih later
        refine ⟨c :: (l.tail ++ before), d, rest,
          place o spaced c l (before ++ d :: rest) :: passed, spaced', ?_, ?_, solid', ?_, ?_⟩
        · simp
        · simp only [Offset.past, List.length_cons, List.length_append] at there ⊢
          omega
        · refine List.forall_mem_cons.2 ⟨?_, ends⟩
          rw [there]
          exact Nat.le_add_right _ _
        · rw [scanned, ← Offset.past_append]
          rfl

/-- No fault is before the text that is scanned. -/
theorem le_index_of_fault {o : Offset} {spaced : Bool} {cs : List Char} {cause : LexicalFault}
    (found : (scanFrom p o spaced 0 cs).fault = some cause) : o.chars ≤ cause.index := by
  obtain ⟨reached, reaches⟩ := exists_reaches (p := p) o spaced cs
  obtain ⟨_, c, rest, _, _, _, read⟩ := reaches.stopped cause found
  have begins := (Lexeme.begins_of_read read).index_eq
  omega

section

variable {source : String} {i : Nat}

/-- No two tokens start at the same place. -/
theorem eq_of_start_eq {a b : Token} (mem_a : a ∈ (ofText p source).tokens)
    (mem_b : b ∈ (ofText p source).tokens) (same : a.start.chars = b.start.chars) : a = b := by
  have distinct : ((ofText p source).tokens.map fun token => token.start.chars).Nodup := by
    refine List.pairwise_map.2 ((pairwise_ofText p source).imp_of_mem fun mem _ le => ?_)
    have long := (lies_of_mem_ofText mem).long
    omega
  exact List.inj_on_of_nodup_map distinct mem_a mem_b same

/-- What a scan makes of the run of a name: a fault at its end, or a token and what follows. -/
theorem exists_run_of_startsAt {c : Char} (here : source.toList[i]? = some c)
    (name : Lexeme.startsName c = true) (starts : (ofText p source).StartsAt i) :
    ∃ run last passed, Lexeme.IsRun p source.toList i run ∧ run.getLast? = some last ∧
      (∀ token ∈ passed, token.stop.chars ≤ i) ∧
      (p.contains last = true → ofText p source =
        ⟨passed, some (.openName (String.ofList run) (i + run.length - 1))⟩) ∧
      (p.contains last = false → ∃ token o behind, o.chars = i + run.length ∧
        ofText p source = Scan.append ⟨passed, none⟩ ((scanFrom p o false 0 behind).cons token) ∧
        token.start.chars = i ∧ token.stop.chars = o.chars ∧ token.text = String.ofList run ∧
        token.word = Lexeme.wordOfName run) := by
  obtain ⟨before, d, rest, passed, spaced, split, there, solid, ends, scanned⟩ :=
    exists_of_startsAt .zero true source.toList starts
  have place : (Offset.zero.past before).chars = i := there.symm
  rw [Offset.zero, Nat.zero_add] at there
  obtain rfl : d = c := by simpa [split, there] using here
  obtain ⟨tail, run⟩ : ∃ tail, rest.takeWhile (Lexeme.continuesName p) = tail := ⟨_, rfl⟩
  have read := Lexeme.read_of_name name run (Offset.zero.past before).chars
  refine ⟨d :: tail, _, passed, ?_, List.getLast?_cons, ends, fun mark => ?_, fun mark => ?_⟩
  · rw [split, there]
    exact Lexeme.isRun_of_startsName name run before
  · rw [mark, if_pos rfl] at read
    rw [ofText, scanned, scanFrom_fault p _ spaced solid read, append_of_readable rfl,
      List.append_nil, place]
    rfl
  · rw [mark, if_neg Bool.false_ne_true] at read
    rw [scanFrom_lexeme p _ spaced solid read] at scanned
    refine ⟨_, _, _, ?_, scanned, place, rfl, rfl, rfl⟩
    rw [← place]
    rfl

end

/-- Where a lexeme starts with a letter or `_`, it takes the whole run of what a name may hold. If
the run ends in punctuation, the scan stops there, at fault for the run. If not, the run is one
token: a truth value if the run is the word for it, and a name otherwise. -/
theorem ofText_name (p : Punctuation) (source : String) {i : Nat} {c : Char}
    (here : source.toList[i]? = some c) (letter : Text.isAlphabetic c = true ∨ c = '_')
    (starts : (ofText p source).StartsAt i) :
    ∃ run last, Lexeme.IsRun p source.toList i run ∧ run.getLast? = some last ∧
      ((ofText p source).fault = some (.openName (String.ofList run) (i + run.length - 1)) ↔
        p.contains last = true) ∧
      ((∃ token ∈ (ofText p source).tokens, token.start.chars = i) ↔ p.contains last = false) ∧
      ∀ token ∈ (ofText p source).tokens, token.start.chars = i →
        token.text = String.ofList run ∧ token.stop.chars = i + run.length ∧
        (token.word = .bool true ↔ run = "true".toList) ∧
        (token.word = .bool false ↔ run = "false".toList) ∧
        (token.word = .name (String.ofList run) ↔
          run ≠ "true".toList ∧ run ≠ "false".toList) := by
  have name : Lexeme.startsName c = true := by simpa [Lexeme.startsName] using letter
  obtain ⟨run, last, passed, isRun, final, ends, refused, taken⟩ :=
    exists_run_of_startsAt here name starts
  refine ⟨run, last, isRun, final, ?_⟩
  cases mark : p.contains last with
  | true =>
      have stopped := refused mark
      have none : ∀ token ∈ (ofText p source).tokens, token.start.chars ≠ i := by
        intro token mem
        have long := (lies_of_mem_ofText mem).long
        have stop := ends token (by rwa [stopped] at mem)
        omega
      refine ⟨iff_of_true (by rw [stopped]) rfl, iff_of_false ?_ (by decide), ?_⟩
      · rintro ⟨token, mem, start⟩
        exact none token mem start
      · intro token mem start
        exact absurd start (none token mem)
  | false =>
      obtain ⟨token, o, behind, past, scanned, start, stop, text, word⟩ := taken mark
      have room := List.length_pos_of_mem (List.mem_of_getLast? final)
      rw [append_of_readable rfl] at scanned
      have found : token ∈ (ofText p source).tokens := by
        rw [scanned]
        exact List.mem_append_right _ (.head _)
      refine ⟨iff_of_false ?_ Bool.false_ne_true, iff_of_true ⟨token, found, start⟩ rfl, ?_⟩
      · intro fault
        rw [scanned] at fault
        have le : o.chars ≤ i + run.length - 1 := le_index_of_fault fault
        omega
      · intro other mem same
        obtain rfl := eq_of_start_eq mem found (same.trans start.symm)
        rw [word]
        exact ⟨text, stop.trans past, Lexeme.wordOfName_iff run⟩

/-- A truth value with punctuation behind it is the start of a name. A digit of another script goes
on with a name behind punctuation, and that name is at fault for the dot at its end. -/
theorem ofText_name_glued :
    (ofText .standard "true.x - _²-٣.").fault = some (.openName "_²-٣." 13) ∧
      ∃ token ∈ (ofText .standard "true.x - _²-٣.").tokens,
        token.start.chars = 0 ∧ token.text = "true.x" ∧ token.word = .name "true.x" := by
  constructor
  · have starts : (ofText .standard "true.x - _²-٣.").StartsAt 9 :=
      .inr ⟨.openName "_²-٣." 13, by decide +kernel, by decide⟩
    obtain ⟨run, last, isRun, final, refused, _⟩ :=
      ofText_name .standard "true.x - _²-٣." (c := '_') (by decide) (.inr rfl) starts
    obtain rfl : run = "_²-٣.".toList := isRun.eq_takeWhile.trans (by decide +kernel)
    obtain rfl : '.' = last := Option.some.inj final
    exact refused.2 (by decide +kernel)
  · have starts : (ofText .standard "true.x - _²-٣.").StartsAt 0 := .inl (by decide +kernel)
    obtain ⟨run, last, isRun, final, _, taken, tokens⟩ :=
      ofText_name .standard "true.x - _²-٣." (c := 't') (by decide) (.inl (by decide)) starts
    obtain rfl : run = "true.x".toList := isRun.eq_takeWhile.trans (by decide +kernel)
    obtain rfl : 'x' = last := Option.some.inj final
    obtain ⟨token, mem, start⟩ := taken.2 (by decide +kernel)
    obtain ⟨text, _, _, _, named⟩ := tokens token mem start
    exact ⟨token, mem, start, text, named.2 (by decide)⟩

end Scan

end Criterion
