/-
# Criterion.Proofs.Memory — what is remembered of the tokens read

A check sees one token. Of those before it a context has kept the last, and for each parenthesis that
is open its place. `Paired` says of tokens that every parenthesis among them has its partner there,
and `Opened` that a stack lists the parentheses that have none: between two of them, and behind the
last, all the others are paired.

* `Recalls.advance`: a token that passes the checks leaves what is remembered true of one token more.
* `Recalls.verdict_cases`: a fault is found at a token, by what is remembered of those before it, or at
  the end, by what is remembered of all of them.
-/
import Criterion.Proofs.Arrangement

namespace Criterion

set_option autoImplicit false

/-! ## Parentheses without a partner -/

/-- Every parenthesis among the tokens has its partner among them. -/
inductive Paired : List Token → Prop where
  | nil : Paired []
  | other {token : Token} :
      token.word ≠ .openParen → token.word ≠ .closeParen → Paired [token]
  | append {xs ys : List Token} : Paired xs → Paired ys → Paired (xs ++ ys)
  | enclosed {opener closer : Token} {inner : List Token} :
      opener.word = .openParen → closer.word = .closeParen → Paired inner →
      Paired (opener :: inner ++ [closer])

/-- The stack lists the opening parentheses without a partner, the last one first. -/
inductive Opened : List Enclosure → List Token → Prop where
  | nil {tokens : List Token} : Paired tokens → Opened [] tokens
  | cons {enclosure : Enclosure} {enclosures : List Enclosure} {before behind : List Token}
      {opener : Token} :
      Opened enclosures before → opener.word = .openParen →
      enclosure.index = opener.start.chars → Paired behind →
      Opened (enclosure :: enclosures) (before ++ opener :: behind)

/-- Paired tokens change nothing of what is open before them. -/
theorem Opened.append {enclosures : List Enclosure} {tokens more : List Token}
    (h : Opened enclosures tokens) (paired : Paired more) : Opened enclosures (tokens ++ more) := by
  cases h with
  | nil here => exact .nil (here.append paired)
  | cons outer word place inner =>
      rw [List.append_assoc, List.cons_append]
      exact .cons outer word place (inner.append paired)

/-- Behind the parenthesis on top of the stack all others are paired. -/
theorem Opened.exists_opener {enclosure : Enclosure} {enclosures : List Enclosure}
    {tokens : List Token} (h : Opened (enclosure :: enclosures) tokens) :
    ∃ before opener behind, tokens = before ++ opener :: behind ∧ opener.word = .openParen ∧
      enclosure.index = opener.start.chars ∧ Paired behind := by
  cases h with
  | cons _ word place inner => exact ⟨_, _, _, rfl, word, place, inner⟩

/-- The stack stays right over a token. -/
theorem Opened.step {n next : Nesting} {tokens : List Token} {item : Item}
    {previous : Option Role} (h : Opened n.enclosures tokens)
    (worded : item.role = Role.ofWord previous item.token.word)
    (eq : n.step item.index item.role = some next) :
    Opened next.enclosures (tokens ++ [item.token]) := by
  have other (opening : item.role ≠ .opening) (closing : item.role ≠ .closing) :
      Paired [item.token] := by
    refine .other (fun word => opening ?_) (fun word => closing ?_) <;> rw [worded, word] <;> rfl
  cases role : item.role with
  | opening =>
      rw [role] at worded eq
      cases eq
      exact .cons h (Role.word_of_opening worded.symm) rfl .nil
  | closing =>
      rw [role] at worded eq
      obtain ⟨enclosures, outer, waiting⟩ := n
      cases h with
      | nil => cases eq
      | cons before word _ inner =>
          cases eq
          rw [List.append_assoc]
          exact before.append (.enclosed word (Role.word_of_closing worded.symm) inner)
  | value | unary | binary =>
      have pair := other (by rw [role]; simp) (by rw [role]; simp)
      rw [role] at eq
      cases eq
      exact h.append pair

/-! ## The context -/

namespace Context

/-- What the context has kept is true of the tokens so far. -/
structure Recalls (c : Context) (tokens : List Token) : Prop where
  last : c.previous = (Item.inOrder none tokens).getLast?
  opened : Opened c.nesting.enclosures tokens

theorem recalls_start (g : Grammar) : (start g).Recalls [] where
  last := rfl
  opened := .nil .nil

variable {c : Context} {tokens : List Token} {token : Token}

/-- The next token has the role that it has among all tokens. -/
theorem Recalls.inOrder_append (h : c.Recalls tokens) (behind : List Token) :
    Item.inOrder none (tokens ++ token :: behind) =
      Item.inOrder none tokens ++
        c.item token :: Item.inOrder (some (c.item token).role) behind := by
  rw [Item.inOrder_append, Option.or_none, List.getLast?_map, ← h.last]
  rfl

/-- Before the first token there is no last one, and only there. -/
theorem Recalls.eq_nil (h : c.Recalls tokens) (found : c.previous = none) : tokens = [] := by
  have none_read := h.last.symm.trans found
  rw [List.getLast?_eq_none_iff] at none_read
  rw [← Item.map_token_inOrder none tokens, none_read]
  rfl

/-- The tokens so far end with the last. -/
theorem Recalls.exists_front {last : Item} (h : c.Recalls tokens)
    (found : c.previous = some last) : ∃ front, tokens = front ++ [last.token] := by
  obtain ⟨front, split⟩ := List.getLast?_eq_some_iff.1 (h.last.symm.trans found)
  refine ⟨front.map Item.token, ?_⟩
  rw [← Item.map_token_inOrder none tokens, split, List.map_append]
  rfl

theorem Recalls.advance (h : c.Recalls tokens) (clear : c.objection token = none) :
    (c.advance token).Recalls (tokens ++ [token]) where
  last := by
    rw [h.inOrder_append, Item.inOrder, List.getLast?_concat]
    rfl
  opened := h.opened.step rfl (step_of_clear clear)

/-- Something is wrong with the first token that does not pass, or with the end. -/
theorem Recalls.verdict_cases {before : List Token} {length : Nat}
    {fault : Option LexicalFault} {d : Diagnostic} (h : c.Recalls before)
    (wrong : c.verdict length fault tokens = some d) :
    (∃ c' passed token behind cause,
      tokens = passed ++ token :: behind ∧ Recalls c' (before ++ passed) ∧
        c'.objection token = some cause ∧ d = .grammar cause) ∨
    ∃ c', Recalls c' (before ++ tokens) ∧ c'.ending length fault = some d := by
  induction tokens generalizing c before with
  | nil =>
      rw [verdict] at wrong
      rw [List.append_nil]
      exact .inr ⟨c, h, wrong⟩
  | cons token rest ih =>
      rw [verdict] at wrong
      cases objection : c.objection token with
      | some cause =>
          rw [objection] at wrong
          cases wrong
          refine .inl ⟨c, [], token, rest, cause, rfl, ?_, objection, rfl⟩
          rwa [List.append_nil]
      | none =>
          rw [objection] at wrong
          rw [List.append_cons]
          rcases ih (h.advance objection) wrong with
            ⟨c', passed, found, behind, cause, rfl, recalls, refused, rfl⟩ | ended
          · rw [List.append_assoc, List.singleton_append] at recalls
            exact .inl ⟨c', token :: passed, found, behind, cause, rfl, recalls, refused, rfl⟩
          · exact .inr ended

end Context

end Criterion
