/-
# Criterion.Proofs.Bookkeeping — what an admission keeps count of

An admission counts operators and prefix operators and stacks the parentheses that are open. A token
that is refused may have been counted and may have opened or closed a parenthesis, so behind a
refusal the counters need not say how deep the next token is. They still agree with each other and
bound what is handed out (`Coherent`). As long as nothing has been refused they say exactly what was
read (`Exact`): the stack lists the parentheses that nothing has closed, each with the prefix
operators directly before it.

* `Tallies.read` and `Retraces.read`: both are kept by a reading, the second by one that admits.
* `bookkeeping`: so they hold behind requests in any order.
-/
import Criterion.Proofs.Bytes
import Criterion.Proofs.Memory
import Criterion.Proofs.Requests
import Criterion.Proofs.Scanning

namespace Criterion

set_option autoImplicit false

/-! ## Prefix operators and open parentheses -/

def Role.isUnary : Role → Bool
  | unary _ => true
  | _ => false

/-- The prefix operators directly before the place behind tokens of these roles. -/
def unaryRun (roles : List Role) : Nat := (roles.reverse.takeWhile Role.isUnary).length

/-- The tokens close no parenthesis that is open before them. -/
def ClosesNone (roles : List Role) : Prop :=
  ∀ more, more <+: roles → more.count .closing ≤ more.count .opening

/-- Nor would they together with `closed` closing parentheses behind them. -/
def Survives (closed : Nat) (roles : List Role) : Prop :=
  ClosesNone roles ∧ roles.count .closing + closed ≤ roles.count .opening

theorem survives_zero {roles : List Role} : Survives 0 roles ↔ ClosesNone roles :=
  ⟨And.left, fun h => ⟨h, h roles (List.prefix_refl _)⟩⟩

theorem survives_nil {closed : Nat} : Survives closed [] ↔ closed = 0 := by
  constructor
  · rintro ⟨_, le⟩
    exact Nat.le_zero.1 (Nat.le_trans (Nat.le_add_left _ _) le)
  · rintro rfl
    refine ⟨fun more le => ?_, Nat.le_refl _⟩
    rw [List.prefix_nil.1 le]
    exact Nat.le_refl _

theorem closesNone_concat {roles : List Role} {role : Role} :
    ClosesNone (roles ++ [role]) ↔
      ClosesNone roles ∧
        (roles ++ [role]).count .closing ≤ (roles ++ [role]).count .opening := by
  constructor
  · intro h
    exact ⟨fun more le => h more (le.trans (List.prefix_append _ _)), h _ (List.prefix_refl _)⟩
  · rintro ⟨h, here⟩ more le
    rcases List.prefix_concat_iff.1 le with rfl | le
    · exact here
    · exact h more le

/-- The closing parentheses that have to be survived before a token, where `closed` have to be behind
it. -/
def Role.closedBefore (closed : Nat) : Role → Nat
  | opening => closed - 1
  | closing => closed + 1
  | _ => closed

theorem survives_concat {closed : Nat} {roles : List Role} {role : Role} :
    Survives closed (roles ++ [role]) ↔ Survives (role.closedBefore closed) roles := by
  rw [Survives, Survives, closesNone_concat, and_assoc]
  refine and_congr_right fun clean => ?_
  have whole := clean roles (List.prefix_refl _)
  rw [List.count_append, List.count_append]
  cases role with
  | opening =>
      rw [List.count_singleton_self, List.count_singleton, if_neg (by decide)]
      show _ ↔ _ + (closed - 1) ≤ _
      omega
  | closing =>
      rw [List.count_singleton_self, List.count_singleton, if_neg (by decide)]
      show _ ↔ _ + (closed + 1) ≤ _
      omega
  | value | unary | binary =>
      rw [List.count_singleton, List.count_singleton, if_neg (by simp), if_neg (by simp)]
      show _ ↔ _ + closed ≤ _
      omega

/-- The parenthesis `enclosure` is open behind the items and behind `closed` closing ones more. -/
def LeavesOpen (items : List Item) (closed : Nat) (enclosure : Enclosure) : Prop :=
  ∃ before opener behind, items = before ++ opener :: behind ∧ opener.role = .opening ∧
    enclosure = ⟨opener.index, unaryRun (before.map Item.role)⟩ ∧
    Survives closed (behind.map Item.role)

/-- Behind one item more the same parentheses are open, but for what it opens or closes. -/
theorem leavesOpen_concat {items : List Item} {item : Item} {closed : Nat}
    {enclosure : Enclosure} :
    LeavesOpen (items ++ [item]) closed enclosure ↔
      (item.role = .opening ∧ closed = 0 ∧
        enclosure = ⟨item.index, unaryRun (items.map Item.role)⟩) ∨
      LeavesOpen items (item.role.closedBefore closed) enclosure := by
  constructor
  · rintro ⟨before, opener, behind, split, opening, named, survives⟩
    rcases List.eq_nil_or_concat behind with rfl | ⟨inner, last, rfl⟩
    · obtain ⟨rfl, same⟩ := List.append_inj' split rfl
      cases same
      exact .inl ⟨opening, survives_nil.1 survives, named⟩
    · rw [List.concat_eq_append, ← List.cons_append, ← List.append_assoc] at split
      obtain ⟨rfl, same⟩ := List.append_inj' split rfl
      cases same
      rw [List.concat_eq_append, List.map_append, List.map_singleton, survives_concat] at survives
      exact .inr ⟨before, opener, inner, rfl, opening, named, survives⟩
  · rintro (⟨opening, rfl, named⟩ | ⟨before, opener, behind, rfl, opening, named, survives⟩)
    · exact ⟨items, item, [], rfl, opening, named, survives_nil.2 rfl⟩
    · refine ⟨before, opener, behind ++ [item], ?_, opening, named, ?_⟩
      · rw [List.append_assoc, List.cons_append]
      · rw [List.map_append, List.map_singleton, survives_concat]
        exact survives

/-- What counts as waiting directly before a place is the run of prefix operators there. -/
theorem pendingBack_true (closed : Nat) (back : List Role) :
    pendingBack closed true back =
      pendingBack closed false back + (back.takeWhile Role.isUnary).length := by
  induction back with
  | nil => rfl
  | cons role rest ih =>
      cases role with
      | unary op =>
          rw [pendingBack, pendingBack, ih, List.takeWhile_cons_of_pos rfl, List.length_cons,
            Nat.add_assoc]
      | opening => cases closed <;> rfl
      | value | binary | closing => rfl

namespace Nesting

theorem Tracks.waiting_eq {n : Nesting} {roles : List Role} (h : n.Tracks roles.reverse) :
    n.waiting = unaryRun roles := by
  have ahead := h.ahead
  rw [pendingBack_true, h.kept 0, List.drop_zero] at ahead
  exact (Nat.add_left_cancel ahead).symm

/-- The stack lists the parentheses that the items leave open. -/
structure Lists (n : Nesting) (items : List Item) : Prop where
  ordered : (n.enclosures.reverse.map Enclosure.index).Sublist (items.map Item.index)
  /-- Also of what stays open when more is closed, so that an item only shifts `closed`. -/
  mem_drop_iff : ∀ closed enclosure,
    enclosure ∈ n.enclosures.drop closed ↔ LeavesOpen items closed enclosure

theorem outermost_lists : outermost.Lists [] where
  ordered := .slnil
  mem_drop_iff closed enclosure := by
    constructor
    · intro mem
      cases List.mem_of_mem_drop mem
    · rintro ⟨before, opener, behind, split, _⟩
      exact absurd split.symm (by simp)

theorem Lists.step {n next : Nesting} {items : List Item} {item : Item} (h : n.Lists items)
    (run : n.waiting = unaryRun (items.map Item.role))
    (eq : n.step item.index item.role = some next) : next.Lists (items ++ [item]) := by
  have longer : (items.map Item.index).Sublist ((items ++ [item]).map Item.index) := by
    rw [List.map_append]
    exact List.sublist_append_left _ _
  cases role : item.role with
  | opening =>
      rw [role] at eq
      cases eq
      refine ⟨?_, fun closed enclosure => ?_⟩
      · simp only [List.reverse_cons, List.map_append, List.map_singleton]
        exact h.ordered.append (.refl _)
      · rw [leavesOpen_concat, role, Role.closedBefore, ← run]
        cases closed with
        | zero =>
            rw [List.drop_zero, List.mem_cons, ← h.mem_drop_iff 0, List.drop_zero]
            simp
        | succ closed =>
            rw [List.drop_succ_cons, Nat.add_sub_cancel, ← h.mem_drop_iff closed]
            simp
  | closing =>
      rw [role] at eq
      obtain ⟨enclosures, outer, waiting⟩ := n
      cases enclosures with
      | nil => cases eq
      | cons top rest =>
          cases eq
          refine ⟨?_, fun closed enclosure => ?_⟩
          · have shorter := h.ordered
            rw [List.reverse_cons, List.map_append] at shorter
            exact ((List.sublist_append_left _ _).trans shorter).trans longer
          · rw [leavesOpen_concat, role, Role.closedBefore, ← h.mem_drop_iff (closed + 1),
              List.drop_succ_cons]
            simp
  | value | unary | binary =>
      rw [role] at eq
      cases eq
      refine ⟨h.ordered.trans longer, fun closed enclosure => ?_⟩
      rw [leavesOpen_concat, role]
      show _ ↔ _ ∨ LeavesOpen items closed enclosure
      rw [← h.mem_drop_iff closed]
      simp

end Nesting

/-! ## Counters behind any requests -/

namespace Admission

/-- The counters agree with each other and bound what has been read, which are these items; the text
can be cut behind the last token. -/
structure Coherent (s : Admission) (source : String) (items : List Item) : Prop where
  balanced : s.nesting.outer = Nesting.remembered s.nesting.enclosures
  /-- Closing a parenthesis forgets no more prefix operators than are counted. -/
  covered : ∀ enclosure rest, s.nesting.enclosures = enclosure :: rest →
    enclosure.waiting ≤ s.nesting.outer
  boundary : ∀ last, s.previous = some last → ∃ before behind : String,
    source = before ++ behind ∧ last.token.stop = ⟨before.utf8ByteSize, before.length⟩ ∧
      last.token.spacedAfter = behind.toList.head?.all Text.isBlank
  short : items.countP (·.role ≠ .value) ≤ 1024

/-- What reading keeps, also when it comes to a fault. -/
structure Tallies (scan : Scan) (items : List Item) (s : Admission) : Prop where
  balanced : s.nesting.Balanced
  last_mem : ∀ last, s.previous = some last → last.token ∈ scan.tokens
  unread_mem : ∀ token ∈ s.unread, token ∈ scan.tokens
  counted : items.countP (·.role ≠ .value) ≤ s.operators
  short : items.countP (·.role ≠ .value) ≤ maxOperators

theorem tallies_start (g : Grammar) (p : Punctuation) (source : String) :
    (start g p source).Tallies (Scan.ofText p source) [] where
  balanced := Nesting.outermost_balanced
  last_mem _ found := by cases found
  unread_mem _ mem := mem
  counted := Nat.le_refl _
  short := Nat.zero_le _

section

variable {scan : Scan} {items : List Item} {tokens rest : List Token} {token : Token}
variable {s : Admission}

theorem Tallies.advance (h : s.Tallies scan items) (unread : s.unread = token :: rest)
    (clear : s.objection token = none) :
    Tallies scan (items ++ [s.item token]) { s with
      toContext := s.advance token
      unread := rest } := by
  have known := h.unread_mem
  rw [unread, List.forall_mem_cons] at known
  have counted := h.counted
  have count : (items ++ [s.item token]).countP (·.role ≠ .value) =
      items.countP (·.role ≠ .value) + if (s.item token).role = .value then 0 else 1 := by
    rw [List.countP_append, List.countP_singleton]
    by_cases value : (s.item token).role = .value <;> simp [value]
  constructor
  case balanced => exact h.balanced.step (Context.step_of_clear clear)
  case last_mem =>
    intro last found
    cases found
    exact known.1
  case unread_mem => exact known.2
  case counted =>
    show _ ≤ if (s.item token).role = .value then s.operators else s.operators + 1
    rw [count]
    split <;> omega
  case short =>
    rw [count]
    split
    · exact h.short
    · next operator =>
      exact Nat.lt_of_le_of_lt counted (Context.operators_lt_of_clear clear operator)

theorem Tallies.read (h : s.Tallies scan items) :
    s.read.2.Tallies scan (items ++ Request.take.hands s.read.1) := by
  generalize eq : s.read = reply
  have reads := s.read_reads
  rw [eq] at reads
  cases reads with
  | admitted unread clear => exact h.advance unread clear
  | @refused token rest cause left _ unread _ jolted =>
      rw [Request.hands_error, List.append_nil]
      obtain ⟨balanced, last_mem, unread_mem, counted, short⟩ := h
      rw [unread, List.forall_mem_cons] at unread_mem
      refine ⟨?_, fun last found => last_mem last (jolted.previous ▸ found), unread_mem.2, ?_, short⟩
      · rcases jolted.nesting with same | step
        · exact same ▸ balanced
        · exact balanced.step step
      · rcases jolted.operators with same | more
        · exact same ▸ counted
        · exact more ▸ Nat.le_succ_of_le counted
  | cramped _ => exact (List.append_nil items).symm ▸ h
  | unfinished _ _ _ => exact (List.append_nil items).symm ▸ h
  | ended _ _ _ _ => exact (List.append_nil items).symm ▸ h
  | misread _ _ =>
      rw [Request.hands_error, List.append_nil]
      exact ⟨h.balanced, h.last_mem, h.unread_mem, h.counted, h.short⟩

theorem Tallies.coherent {p : Punctuation} {source : String}
    (h : s.Tallies (Scan.ofText p source) items) : s.Coherent source items := by
  refine ⟨h.balanced, fun enclosure rest stack => ?_, fun last found => ?_, h.short⟩
  · have balanced : s.nesting.outer = _ := h.balanced
    rw [balanced, stack]
    exact Nat.le_add_right _ _
  · have lies := Scan.lies_of_mem_ofText (h.last_mem last found)
    refine ⟨String.ofList (source.toList.take last.token.stop.chars),
      String.ofList (source.toList.drop last.token.stop.chars), ?_, ?_, ?_⟩
    · rw [← String.ofList_append, List.take_append_drop, String.ofList_toList]
    · rw [← Offset.past_zero]
      exact lies.stop
    · rw [String.toList_ofList]
      exact lies.behind

/-! ## Counters behind requests that were granted -/

/-- The items are the first of the text, and the counters are what they leave open and waiting. -/
structure Exact (s : Admission) (scan : Scan) (items : List Item) : Prop where
  first : ∃ tokens, scan.tokens = tokens ++ s.unread ∧ items = Item.inOrder none tokens
  /-- The stack goes from the outermost parenthesis to the innermost. -/
  ordered : (s.nesting.enclosures.reverse.map Enclosure.index).Pairwise (· < ·)
  opened : ∀ enclosure, enclosure ∈ s.nesting.enclosures ↔
    ∃ before opener behind, items = before ++ opener :: behind ∧ opener.role = .opening ∧
      enclosure = ⟨opener.index, unaryRun (before.map Item.role)⟩ ∧
      ClosesNone (behind.map Item.role)
  waiting : s.nesting.waiting = unaryRun (items.map Item.role)
  shallow : s.nesting.enclosures.length + s.nesting.outer + s.nesting.waiting ≤ 64

/-- What a reading that admits a token keeps, `tokens` being those before. -/
structure Retraces (scan : Scan) (tokens : List Token) (s : Admission) : Prop where
  split : scan.tokens = tokens ++ s.unread
  stands : s.toContext.Stands ((Item.inOrder none tokens).map Item.role)
  recalls : s.toContext.Recalls tokens
  lists : s.nesting.Lists (Item.inOrder none tokens)

theorem retraces_start (g : Grammar) (p : Punctuation) (source : String) :
    (start g p source).Retraces (Scan.ofText p source) [] where
  split := rfl
  stands := Context.stands_start g
  recalls := Context.recalls_start g
  lists := Nesting.outermost_lists

theorem Retraces.advance (h : s.Retraces scan tokens) (unread : s.unread = token :: rest)
    (clear : s.objection token = none) :
    Retraces scan (tokens ++ [token]) { s with toContext := s.advance token, unread := rest } := by
  have items : Item.inOrder none (tokens ++ [token]) =
      Item.inOrder none tokens ++ [s.item token] := h.recalls.inOrder_append []
  constructor
  case split => rw [h.split, unread, List.append_assoc, List.singleton_append]
  case stands =>
    rw [items, List.map_append]
    exact h.stands.advance clear
  case recalls => exact h.recalls.advance clear
  case lists =>
    rw [items]
    exact h.lists.step h.stands.tracks.waiting_eq (Context.step_of_clear clear)

theorem Retraces.exact {p : Punctuation} {source : String}
    (h : s.Retraces (Scan.ofText p source) tokens) :
    s.Exact (Scan.ofText p source) (Item.inOrder none tokens) where
  first := ⟨tokens, h.split, rfl⟩
  ordered := by
    have starts : (Item.inOrder none tokens).map Item.index =
        tokens.map fun token => token.start.chars := by
      rw [← Item.map_token_inOrder none tokens, List.map_map, Item.map_token_inOrder]
      rfl
    have ordered := Scan.pairwise_ofText p source
    rw [h.split, List.pairwise_append] at ordered
    refine List.Pairwise.sublist h.lists.ordered ?_
    rw [starts, List.pairwise_map]
    refine ordered.1.imp_of_mem fun mem _ le => ?_
    have inside : _ ∈ (Scan.ofText p source).tokens := h.split ▸ List.mem_append_left _ mem
    exact Nat.lt_of_lt_of_le (Scan.lies_of_mem_ofText inside).long le
  opened enclosure := by
    have opened := h.lists.mem_drop_iff 0 enclosure
    simp only [List.drop_zero, LeavesOpen, survives_zero] at opened
    exact opened
  waiting := h.stands.tracks.waiting_eq
  shallow := h.stands.shallow

end

/-! ## Any requests -/

theorem tallies_after (g : Grammar) (p : Punctuation) (source : String) (rs : List Request) :
    ((start g p source).after rs).Tallies (Scan.ofText p source) ((start g p source).pulled rs) :=
  pulled_induction (start g p source) (fun _ => True)
    (motive := fun items s => s.Tallies (Scan.ofText p source) items) (tallies_start g p source)
    (fun _ _ _ _ h => ⟨h.balanced, h.last_mem, h.unread_mem, h.counted, h.short⟩)
    (fun _ _ h _ => h.read) rs (fun _ _ => trivial)

theorem retraces_after {g : Grammar} {p : Punctuation} {source : String} {rs : List Request}
    (granted : (start g p source).Grants rs) :
    ∃ tokens, (start g p source).pulled rs = Item.inOrder none tokens ∧
      ((start g p source).after rs).Retraces (Scan.ofText p source) tokens := by
  refine pulled_induction (start g p source) (fun answer => answer.isOk = true)
    (motive := fun items s => ∃ tokens, items = Item.inOrder none tokens ∧
      s.Retraces (Scan.ofText p source) tokens)
    ⟨[], rfl, retraces_start g p source⟩ ?_ ?_ rs granted
  · rintro items s shown finished ⟨tokens, rfl, h⟩
    exact ⟨tokens, rfl, h.split, h.stands, h.recalls, h.lists⟩
  · rintro items s ⟨tokens, rfl, h⟩ allowed
    generalize eq : s.read = reply at allowed
    have reads := s.read_reads
    rw [eq] at reads
    cases reads with
    | @admitted token rest unread clear =>
        exact ⟨tokens ++ [token], (h.recalls.inOrder_append []).symm, h.advance unread clear⟩
    | ended _ _ _ _ => exact ⟨tokens, List.append_nil _, h⟩
    | cramped _ => cases allowed
    | refused _ _ _ _ => cases allowed
    | misread _ _ => cases allowed
    | unfinished _ _ _ => cases allowed

/-- The counters agree with each other behind requests in any order and whatever they came to, and
with what was read as long as nothing was refused. -/
theorem bookkeeping (g : Grammar) (p : Punctuation) (source : String) (rs : List Request) :
    let s := start g p source
    (s.after rs).Coherent source (s.pulled rs) ∧
      (s.Grants rs → (s.after rs).Exact (Scan.ofText p source) (s.pulled rs)) := by
  intro s
  refine ⟨(tallies_after g p source rs).coherent, fun granted => ?_⟩
  obtain ⟨tokens, items, retraces⟩ := retraces_after granted
  rw [items]
  exact retraces.exact

/-- Two parentheses are open before `1`, which is shown: the inner one remembers `!!`, the outer one
`-`. -/
theorem bookkeeping_open :
    ((start .arithmetic .standard "-(x + !!(1").after (.replicate 7 .take ++ [.peek])).nesting =
        ⟨[⟨8, 2⟩, ⟨1, 1⟩], 3, 0⟩ ∧
      ((start .arithmetic .standard "-(x + !!(1").after (.replicate 7 .take ++ [.peek])).Exact
        (Scan.ofText .standard "-(x + !!(1")
        ((start .arithmetic .standard "-(x + !!(1").pulled (.replicate 7 .take ++ [.peek])) :=
  ⟨by decide +kernel,
    (bookkeeping .arithmetic .standard "-(x + !!(1" _).2 (by decide +kernel)⟩

end Admission

end Criterion
