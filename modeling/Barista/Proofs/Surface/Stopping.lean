import Barista.Proofs.Surface.Descent

/-!
# Where readers stop

A reader passes lexemes one after the other.  It succeeds in front of what it did not pass, and it
fails at a fault, at a lexeme or at the end of the text, and never goes on from there: the end can
be read again and again, but nobody reads it twice.  As for the table there is one law for each way
to put readers together, and one statement per reader.
-/

namespace Barista
namespace Surface

/-- How reading fails at the cursor `c` and goes on at another: it passes a fault, passes a lexeme
or stays in front of it, and stays at the end of the text. -/
def StopsAt (c : Cursor) : SyntaxError → Cursor → Prop
  | .lexical f, r => c.next = (.error f, r)
  | .unexpectedToken _ t s, r =>
    ∃ l rest, c.next = (.ok (some l), rest) ∧ l.token = t ∧ l.span = s ∧ (r = c ∨ r = rest)
  | .unexpectedEnd _ s, r => c.next = (.ok none, c) ∧ s = c.stopSpan ∧ r = c

/-- Reading from `c` passes lexemes only, and where it fails it stops. -/
def Outcome.Ends {n : Nat} {α : Type} (c : Cursor) : Outcome n α → Prop
  | .ok _ r _ => ∃ ls, c.Reads ls r
  | .fail e r => ∃ ls c₁, c.Reads ls c₁ ∧ StopsAt c₁ e r

section Views

variable {c r : Cursor} {l : Lexeme} {f : Fault}

theorem next_of_lexeme {shorter : r.length < c.length} (h : c.view = .lexeme l r shorter) :
    c.next = (.ok (some l), r) := by
  simp only [Cursor.next, h]

theorem next_of_fault {shorter : r.length < c.length} (h : c.view = .fault f r shorter) :
    c.next = (.error f, r) := by
  simp only [Cursor.next, h]

theorem next_of_finish (h : c.view = .finish) : c.next = (.ok none, c) := by
  simp only [Cursor.next, h]

end Views

/-! ## Readers put together -/

namespace Outcome

variable {α β : Type} {n m : Nat} {o : Outcome n α} {c r : Cursor} {l : Lexeme}

theorem ends_done {value : α} : (Outcome.done value c).Ends c :=
  ⟨[], .nil c⟩

theorem Ends.mono (h : o.Ends c) (hle : n ≤ m) : (o.mono hle).Ends c := by
  cases o <;> exact h

theorem Ends.relax (h : o.Ends c) : o.relax.Ends c :=
  h.mono _

theorem Ends.after (h : o.Ends c) {hlt : n < m} : (o.after hlt).Ends c :=
  h.mono _

theorem Ends.map (h : o.Ends c) (f : α → β) : (o.map f).Ends c := by
  cases o <;> exact h

/-- Lexemes may have been passed before. -/
theorem Ends.trans {ls : List Lexeme} (hreads : c.Reads ls r) (h : o.Ends r) : o.Ends c := by
  cases o with
  | ok value r' hlt =>
      obtain ⟨ls', hreads'⟩ := h
      exact ⟨ls ++ ls', hreads.append hreads'⟩
  | fail error r' =>
      obtain ⟨ls', c₁, hreads', hstops⟩ := h
      exact ⟨ls ++ ls', c₁, hreads.append hreads', hstops⟩

theorem Ends.andThen {f : α → (rest : Cursor) → rest.length < n → Outcome (rest.length + 1) β}
    (h : o.Ends c) (hf : ∀ a r hlt, (f a r hlt).Ends r) : (o.andThen f).Ends c := by
  cases o with
  | ok value r hlt =>
      obtain ⟨ls, hreads⟩ := h
      exact (Ends.trans hreads (hf value r hlt)).mono hlt
  | fail error r => exact h

theorem Ends.behind (h : o.Ends r) (hnext : c.next = (.ok (some l), r)) : o.Ends c :=
  Ends.trans (.cons hnext (.nil r)) h

theorem ends_fault {f : Fault} (h : c.next = (.error f, r)) :
    (Outcome.fail (.lexical f) r : Outcome n α).Ends c :=
  ⟨[], c, .nil c, h⟩

theorem ends_token {expected : Expectation} {r' : Cursor} (h : c.next = (.ok (some l), r))
    (hr' : r' = c ∨ r' = r) :
    (Outcome.fail (.unexpectedToken expected l.token l.span) r' : Outcome n α).Ends c :=
  ⟨[], c, .nil c, l, r, h, rfl, rfl, hr'⟩

theorem ends_end {expected : Expectation} (h : c.next = (.ok none, c)) :
    (Outcome.fail (.unexpectedEnd expected c.stopSpan) c : Outcome n α).Ends c :=
  ⟨[], c, .nil c, h, rfl, rfl⟩

end Outcome

open Outcome

section Tokens

variable {α β : Type} {n : Nat} {c : Cursor}

theorem ends_take {expected : Expectation} {accept : Token → Option α} :
    (c.take expected accept).Ends c := by
  rw [Cursor.take]
  split
  · rename_i l r hlt hview
    have hnext := next_of_lexeme hview
    split
    · exact ⟨[l], .cons hnext (.nil r)⟩
    · exact ends_token hnext (.inr rfl)
  · rename_i hview
    exact ends_fault (next_of_fault hview)
  · rename_i hview
    exact ends_end (next_of_finish hview)

theorem ends_expect {t : Token} : (c.expect t).Ends c :=
  ends_take.map _

theorem ends_expectName : c.expectName.Ends c :=
  ends_take.map _

theorem ends_ifNext {slack : Nat} {accept : Token → Option β}
    {present : β → Lexeme → (rest : Cursor) → rest.length < c.length → Outcome (rest.length + 1) α}
    {absent : Unit → Outcome (c.length + slack) α}
    (hpresent : ∀ value l r hlt, (present value l r hlt).Ends r)
    (habsent : (absent ()).Ends c) : (c.ifNext slack accept present absent).Ends c := by
  rw [Cursor.ifNext]
  split
  · rename_i l r hlt hview
    split
    · exact ((hpresent _ l r hlt).behind (next_of_lexeme hview)).mono _
    · exact habsent
  · rename_i hview
    exact ends_fault (next_of_fault hview)
  · exact habsent

end Tokens

/-! ## Types and expressions -/

theorem ends_typeName (c : Cursor) : (typeName c).Ends c := by
  rw [typeName]
  split
  · rename_i hview
    exact ends_fault (next_of_fault hview)
  · rename_i hview
    exact ends_end (next_of_finish hview)
  · rename_i l r hlt hview
    have hnext := next_of_lexeme hview
    split
    case h_6 =>
      refine (Ends.behind ?_ hnext).after
      refine ends_expect.andThen fun _ c₁ hlt₁ ↦ ?_
      exact ((ends_typeName c₁).andThen fun _ c₂ hlt₂ ↦ (ends_expect.map _).relax).relax
    case h_7 => exact ends_token hnext (.inr rfl)
    all_goals exact ⟨[l], .cons hnext (.nil r)⟩
termination_by c.length
decreasing_by all_goals omega

mutual

theorem ends_expression (c : Cursor) : (expression c).Ends c := by
  rw [expression]
  refine (ends_binary .or c).andThen fun test c₁ hlt₁ ↦ ?_
  refine ends_ifNext (fun _ l c₂ hlt₂ ↦ ?_) ends_done
  refine ((ends_binary .or c₂).andThen fun yes c₃ hlt₃ ↦ ?_).relax
  refine (ends_expect.andThen fun _ c₄ hlt₄ ↦ ?_).relax
  exact ((ends_expression c₄).map _).relax
termination_by 16 * c.length + 13
decreasing_by all_goals have := Level.rank_le .or; omega

theorem ends_binary (level : Level) (c : Cursor) : (binary level c).Ends c := by
  rw [binary]
  exact (ends_operand level c).andThen fun left c₁ hlt₁ ↦ ends_chain level left c₁
termination_by 16 * c.length + 2 * level.rank + 2
decreasing_by all_goals omega

theorem ends_operand : (level : Level) → (c : Cursor) → (operand level c).Ends c
  | .or, c => by
      rw [operand]
      exact ends_binary .and c
  | .and, c => by
      rw [operand]
      exact ends_binary .comparison c
  | .comparison, c => by
      rw [operand]
      exact ends_binary .sum c
  | .sum, c => by
      rw [operand]
      exact ends_binary .product c
  | .product, c => by
      rw [operand]
      exact ends_unary c
termination_by level c => 16 * c.length + 2 * level.rank + 1
decreasing_by all_goals simp only [Level.rank]; omega

theorem ends_chain (level : Level) (left : Expr) (c : Cursor) : (chain level left c).Ends c := by
  rw [chain]
  refine ends_ifNext (fun op l c₁ hlt₁ ↦ ?_) ends_done
  refine ((ends_operand level c₁).andThen fun right c₂ hlt₂ ↦ ?_).relax
  dsimp only
  split
  · exact ends_chain level _ c₂
  · exact ends_done
termination_by 16 * c.length
decreasing_by all_goals have := level.rank_le; omega

theorem ends_unary (c : Cursor) : (unary c).Ends c := by
  rw [unary]
  refine ends_ifNext (fun op l c₁ hlt₁ ↦ ?_) (ends_power c)
  exact ((ends_unary c₁).map _).relax
termination_by 16 * c.length + 2
decreasing_by all_goals omega

theorem ends_power (c : Cursor) : (power c).Ends c := by
  rw [power]
  refine (ends_primary c).andThen fun base c₁ hlt₁ ↦ ?_
  refine (ends_suffixes base c₁).andThen fun whole c₂ hlt₂ ↦ ?_
  refine ends_ifNext (fun _ l c₃ hlt₃ ↦ ?_) ends_done
  exact ((ends_unary c₃).map _).relax
termination_by 16 * c.length + 1
decreasing_by all_goals omega

theorem ends_suffixes (array : Expr) (c : Cursor) : (suffixes array c).Ends c := by
  rw [suffixes]
  refine ends_ifNext (fun _ l c₁ hlt₁ ↦ ?_) ends_done
  refine ((ends_expression c₁).andThen fun position c₂ hlt₂ ↦ ?_).relax
  exact (ends_expect.andThen fun close c₃ hlt₃ ↦ ends_suffixes _ c₃).relax
termination_by 16 * c.length
decreasing_by all_goals omega

theorem ends_primary (c : Cursor) : (primary c).Ends c := by
  rw [primary]
  split
  · rename_i hview
    exact ends_fault (next_of_fault hview)
  · rename_i hview
    exact ends_end (next_of_finish hview)
  · rename_i l r hlt hview
    have hnext := next_of_lexeme hview
    split
    case h_6 =>
      refine (Ends.behind ?_ hnext).mono _
      refine ends_ifNext (fun _ l c₁ hlt₁ ↦ ?_) ends_done
      exact ((ends_items .closeParen c₁).map _).relax
    case h_7 =>
      refine (Ends.behind ?_ hnext).after
      exact (ends_expression r).andThen fun inner c₁ hlt₁ ↦ (ends_expect.map _).relax
    case h_8 => exact (((ends_items .closeBracket r).map _).behind hnext).after
    case h_9 => exact ends_token hnext (.inr rfl)
    all_goals exact ⟨[l], .cons hnext (.nil r)⟩
termination_by 16 * c.length
decreasing_by all_goals omega

theorem ends_items (close : Punct) (c : Cursor) : (items close c).Ends c := by
  rw [items]
  refine ends_ifNext (fun _ l c₁ hlt₁ ↦ ends_done) ?_
  refine (ends_expression c).andThen fun first c₁ hlt₁ ↦ ?_
  exact ((ends_moreItems close c₁).map _).relax
termination_by 16 * c.length + 14
decreasing_by all_goals omega

theorem ends_moreItems (close : Punct) (c : Cursor) : (moreItems close c).Ends c := by
  rw [moreItems]
  refine ends_ifNext (fun _ l c₁ hlt₁ ↦ ?_) (ends_expect.map _)
  refine ((ends_expression c₁).andThen fun first c₂ hlt₂ ↦ ?_).relax
  exact ((ends_moreItems close c₂).map _).relax
termination_by 16 * c.length
decreasing_by all_goals omega

end

/-! ## Statements -/

theorem ends_param (c : Cursor) : (param c).Ends c := by
  rw [param]
  refine ends_expectName.andThen fun name c₁ hlt₁ ↦ ?_
  refine ends_ifNext (fun _ l c₂ hlt₂ ↦ ?_) ends_done
  exact ((ends_typeName c₂).map _).relax

theorem ends_moreParams (c : Cursor) : (moreParams c).Ends c := by
  rw [moreParams]
  refine (ends_param c).andThen fun first c₁ hlt₁ ↦ ?_
  refine ends_ifNext (fun _ l c₂ hlt₂ ↦ ?_) (ends_expect.map _).relax
  exact ((ends_moreParams c₂).map _).relax
termination_by c.length
decreasing_by all_goals omega

theorem ends_params (c : Cursor) : (params c).Ends c := by
  rw [params]
  exact ends_ifNext (fun _ l c₁ hlt₁ ↦ ends_done) (ends_moreParams c)

theorem ends_declaration (c : Cursor) : (declaration c).Ends c := by
  rw [declaration]
  refine (ends_typeName c).andThen fun type c₁ hlt₁ ↦ ?_
  refine (ends_expectName.andThen fun name c₂ hlt₂ ↦ ?_).relax
  refine (ends_expect.andThen fun _ c₃ hlt₃ ↦ ?_).relax
  exact ((ends_expression c₃).map _).relax

theorem ends_printed (start : Span) (c : Cursor) : (printed start c).Ends c := by
  rw [printed]
  refine ends_expect.andThen fun _ c₁ hlt₁ ↦ ?_
  exact ((ends_expression c₁).andThen fun argument c₂ hlt₂ ↦ (ends_expect.map _).relax).relax

theorem ends_returned (start : Span) (c : Cursor) : (returned start c).Ends c := by
  rw [returned]
  split
  · rename_i hview
    exact ends_fault (next_of_fault hview)
  · exact ends_done
  · split
    · exact ((ends_expression c).andThen fun value c₁ hlt₁ ↦ ends_done).relax
    · exact ends_done

theorem ends_assignOrCall (target : Name) (c : Cursor) : (assignOrCall target c).Ends c := by
  rw [assignOrCall]
  split
  · rename_i hview
    exact ends_fault (next_of_fault hview)
  · rename_i hview
    exact ends_end (next_of_finish hview)
  · rename_i l r hlt hview
    have hnext := next_of_lexeme hview
    split
    · exact (((ends_items .closeParen r).map _).behind hnext).after
    · split
      · exact (((ends_expression r).map _).behind hnext).after
      · exact ends_token hnext (.inl rfl)
    · exact ends_token hnext (.inl rfl)

mutual

theorem ends_statement (c : Cursor) : (statement c).Ends c := by
  rw [statement]
  split
  · rename_i hview
    exact ends_fault (next_of_fault hview)
  · rename_i hview
    exact ends_end (next_of_finish hview)
  · rename_i l r hlt hview
    have hnext := next_of_lexeme hview
    split
    case h_1 => exact ((ends_function r).behind hnext).after
    case h_2 => exact ((ends_printed l.span r).behind hnext).after
    case h_3 =>
      refine (Ends.behind ?_ hnext).after
      refine (ends_expression r).andThen fun test c₁ hlt₁ ↦ ?_
      refine ((ends_block c₁).andThen fun body c₂ hlt₂ ↦ ?_).relax
      exact (ends_branches body.2 c₂).map _
    case h_4 =>
      refine (Ends.behind ?_ hnext).after
      exact (ends_expression r).andThen fun test c₁ hlt₁ ↦ ((ends_block c₁).map _).relax
    case h_5 =>
      refine (Ends.behind ?_ hnext).after
      refine ends_expectName.andThen fun iterator c₁ hlt₁ ↦ ?_
      refine (ends_expect.andThen fun _ c₂ hlt₂ ↦ ?_).relax
      refine ((ends_expression c₂).andThen fun collection c₃ hlt₃ ↦ ?_).relax
      exact ((ends_block c₃).map _).relax
    case h_6 => exact ((ends_returned l.span r).behind hnext).mono _
    case h_7 =>
      split
      · exact ends_declaration c
      · exact ends_token hnext (.inl rfl)
    case h_8 name htoken => exact ((ends_assignOrCall ⟨name, l.span⟩ r).behind hnext).after
    case h_9 => exact ends_token hnext (.inl rfl)
termination_by 2 * c.length
decreasing_by all_goals omega

theorem ends_function (c : Cursor) : (function c).Ends c := by
  rw [function]
  refine ends_expectName.andThen fun name c₁ hlt₁ ↦ ?_
  refine (ends_expect.andThen fun _ c₂ hlt₂ ↦ ?_).relax
  refine ((ends_params c₂).andThen fun inputs c₃ hlt₃ ↦ ?_).relax
  refine (ends_expect.andThen fun _ c₄ hlt₄ ↦ ?_).relax
  refine ((ends_typeName c₄).andThen fun result c₅ hlt₅ ↦ ?_).relax
  exact ((ends_block c₅).map _).relax
termination_by 2 * c.length
decreasing_by all_goals omega

theorem ends_block (c : Cursor) : (block c).Ends c := by
  rw [block]
  exact ends_expect.andThen fun _ c₁ hlt₁ ↦ (ends_blockRest c₁).relax
termination_by 2 * c.length
decreasing_by all_goals omega

theorem ends_blockRest (c : Cursor) : (blockRest c).Ends c := by
  rw [blockRest]
  split
  · rename_i hview
    exact ends_fault (next_of_fault hview)
  · rename_i hview
    exact ends_end (next_of_finish hview)
  · rename_i l r hlt hview
    split
    · exact ⟨[l], .cons (next_of_lexeme hview) (.nil r)⟩
    · exact (ends_statement c).andThen fun first c₁ hlt₁ ↦ ((ends_blockRest c₁).map _).relax
termination_by 2 * c.length + 1
decreasing_by all_goals omega

theorem ends_branches (close : Span) (c : Cursor) : (branches close c).Ends c := by
  rw [branches]
  refine ends_ifNext (fun _ l c₁ hlt₁ ↦ ?_) ends_done
  refine ends_ifNext (fun _ l c₂ hlt₂ ↦ ?_) ((ends_block c₁).map _).relax
  refine ((ends_expression c₂).andThen fun test c₃ hlt₃ ↦ ?_).relax
  refine ((ends_block c₃).andThen fun body c₄ hlt₄ ↦ ?_).relax
  exact (ends_branches body.2 c₄).map _
termination_by 2 * c.length
decreasing_by all_goals omega

end

theorem ends_program (c : Cursor) : (program c).Ends c := by
  rw [program]
  split
  · rename_i hview
    exact ends_fault (next_of_fault hview)
  · exact ends_done
  · exact ((ends_statement c).andThen fun first c₁ hlt₁ ↦ (ends_program c₁).map _).relax
termination_by c.length
decreasing_by all_goals omega

end Surface
end Barista
