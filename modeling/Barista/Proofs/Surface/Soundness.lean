import Barista.Proofs.Surface.Grammar

/-!
# What is read is derived

Each reader reads phrases of the grammar only.  The proofs recurse as the readers do, and the two
loops, over the operators of a level and over indices, carry along the phrase read so far.
-/

namespace Barista
namespace Surface

open Cursor (only reads_expect reads_expectName only_eq_some_iff only_eq_none_iff
  reads_ifNext_cases)
open Outcome

namespace Level

theorem holds_iff (l : Level) (op : BinaryOp) : l.holds op = true ↔ op ∈ l.operators := by
  cases l <;> cases op <;> decide

theorem operator?_eq_some_iff {l : Level} {token : Token} {op : BinaryOp} :
    l.operator? token = some op ↔ op ∈ l.operators ∧ token = .symbol op.symbol := by
  cases token with
  | symbol sign =>
      simp only [operator?, Option.filter_eq_some_iff, BinaryOp.ofSymbol?_eq_some_iff, holds_iff,
        Token.symbol.injEq]
      constructor
      · rintro ⟨hsign, hop⟩
        exact ⟨hop, hsign.symm⟩
      · rintro ⟨hop, hsign⟩
        exact ⟨hsign.symm, hop⟩
  | _ => simp [operator?]

theorem repeats_iff {l : Level} : l.repeats = true ↔ l ≠ .comparison := by
  simp [repeats]

end Level

theorem unaryOp?_eq_some_iff {token : Token} {op : UnaryOp} :
    unaryOp? token = some op ↔ token = .symbol op.symbol := by
  cases token with
  | symbol sign =>
      rw [unaryOp?, UnaryOp.ofSymbol?_eq_some_iff, Token.symbol.injEq]
      exact eq_comm
  | _ => simp [unaryOp?]

theorem valueAhead_iff_of_view {c r : Cursor} {l : Lexeme} {shorter : r.length < c.length}
    (h : c.view = .lexeme l r shorter) :
    valueAhead c ↔ (l.token.startsExpression && !l.onNewLine) = true := by
  obtain ⟨items, last, stop⟩ := c
  rcases items with _ | ⟨l' | f, items⟩
  · cases h
  · cases h
    simp [valueAhead]
  · cases h

theorem not_valueAhead_of_finish {c : Cursor} (h : c.view = .finish) : ¬ valueAhead c := by
  rintro ⟨l, items, hitems, -⟩
  rw [Cursor.items_of_view_finish h] at hitems
  cases hitems

/-! ## Types -/

theorem derives_of_typeName (c : Cursor) {type : TypeName} {r : Cursor}
    (h : (typeName c).Reads type r) : Derives .type c type r := by
  rw [typeName] at h
  split at h
  · exact (not_reads_fail h).elim
  · exact (not_reads_fail h).elim
  · rename_i l rest shorter hview
    have hpasses := Cursor.passes_of_view hview
    split at h
    case h_6 hword =>
      simp only [reads_after, reads_andThen, reads_relax, reads_map, reads_expect] at h
      obtain ⟨s₁, c₁, hlt₁, hopen, element, c₂, hlt₂, helement, s₂, hclose, rfl⟩ := h
      rw [hword] at hpasses
      exact .arrayType hpasses hopen (derives_of_typeName c₁ helement) hclose rfl
    case h_7 => exact (not_reads_fail h).elim
    all_goals
      rename_i hword
      obtain ⟨rfl, rfl⟩ := reads_ok.1 h
      rw [hword] at hpasses
      exact .plainType hpasses rfl
termination_by c.length

/-! ## Expressions -/

mutual

theorem derives_of_expression (c : Cursor) {e : Expr} {r : Cursor}
    (h : (expression c).Reads e r) : Derives .expression c e r := by
  rw [expression] at h
  obtain ⟨test, c₁, hlt₁, htest, h⟩ := reads_andThen.1 h
  have htest := derives_of_binary .or c htest
  rcases reads_ifNext_cases h with ⟨l, u, c₂, hlt₂, hquestion, haccept, h⟩ | ⟨-, h⟩
  · rw [only_eq_some_iff.1 haccept] at hquestion
    simp only [reads_andThen, reads_relax, reads_map, reads_expect] at h
    obtain ⟨yes, c₃, hlt₃, hyes, s, c₄, hlt₄, hcolon, no, hno, rfl⟩ := h
    exact .ternary htest hquestion (derives_of_binary .or c₂ hyes) hcolon
      (derives_of_expression c₄ hno) rfl
  · obtain ⟨rfl, rfl⟩ := reads_done.1 h
    exact .plain htest
termination_by 16 * c.length + 13
decreasing_by all_goals have := Level.rank_le .or; omega

theorem derives_of_binary (l : Level) (c : Cursor) {e : Expr} {r : Cursor}
    (h : (binary l c).Reads e r) : Derives (.level l) c e r := by
  rw [binary] at h
  obtain ⟨left, c₁, hlt₁, hleft, h⟩ := reads_andThen.1 h
  have hleft := derives_of_operand l c hleft
  by_cases hlevel : l = .comparison
  · subst hlevel
    rw [chain] at h
    rcases reads_ifNext_cases h with ⟨sign, op, c₂, hlt₂, hsign, haccept, h⟩ | ⟨-, h⟩
    · obtain ⟨hop, hsymbol⟩ := Level.operator?_eq_some_iff.1 haccept
      rw [hsymbol] at hsign
      rw [reads_relax] at h
      obtain ⟨right, c₃, hlt₃, hright, h⟩ := reads_andThen.1 h
      obtain ⟨rfl, rfl⟩ := reads_done.1 h
      exact .comparison hleft hop hsign (derives_of_operand .comparison c₂ hright) rfl
    · obtain ⟨rfl, rfl⟩ := reads_done.1 h
      exact .single hleft
  · exact derives_of_chain l hlevel c₁ (.single hleft) h
termination_by 16 * c.length + 2 * l.rank + 2

theorem derives_of_operand : (l : Level) → (c : Cursor) → {e : Expr} → {r : Cursor} →
    (operand l c).Reads e r → Derives (.operand l) c e r
  | .or, c, _, _, h => by
      rw [operand] at h
      exact .tighter rfl (derives_of_binary .and c h)
  | .and, c, _, _, h => by
      rw [operand] at h
      exact .tighter rfl (derives_of_binary .comparison c h)
  | .comparison, c, _, _, h => by
      rw [operand] at h
      exact .tighter rfl (derives_of_binary .sum c h)
  | .sum, c, _, _, h => by
      rw [operand] at h
      exact .tighter rfl (derives_of_binary .product c h)
  | .product, c, _, _, h => by
      rw [operand] at h
      exact .tightest (derives_of_unary c h)
termination_by l c => 16 * c.length + 2 * l.rank + 1
decreasing_by all_goals simp only [Level.rank]; omega

/-- The operations read so far are the left operand of what is read next. -/
theorem derives_of_chain (l : Level) (hlevel : l ≠ .comparison) (c₁ : Cursor) {c r : Cursor}
    {left e : Expr} (hleft : Derives (.level l) c left c₁) (h : (chain l left c₁).Reads e r) :
    Derives (.level l) c e r := by
  rw [chain] at h
  rcases reads_ifNext_cases h with ⟨sign, op, c₂, hlt₂, hsign, haccept, h⟩ | ⟨-, h⟩
  · obtain ⟨hop, hsymbol⟩ := Level.operator?_eq_some_iff.1 haccept
    rw [hsymbol] at hsign
    rw [reads_relax] at h
    obtain ⟨right, c₃, hlt₃, hright, h⟩ := reads_andThen.1 h
    dsimp only at h
    rw [if_pos (Level.repeats_iff.2 hlevel)] at h
    exact derives_of_chain l hlevel c₃
      (.operation hlevel hleft hop hsign (derives_of_operand l c₂ hright) rfl) h
  · obtain ⟨rfl, rfl⟩ := reads_done.1 h
    exact hleft
termination_by 16 * c₁.length
decreasing_by all_goals have := l.rank_le; omega

theorem derives_of_unary (c : Cursor) {e : Expr} {r : Cursor} (h : (unary c).Reads e r) :
    Derives .unary c e r := by
  rw [unary] at h
  rcases reads_ifNext_cases h with ⟨l, op, c₁, hlt₁, hsign, haccept, h⟩ | ⟨-, h⟩
  · rw [unaryOp?_eq_some_iff.1 haccept] at hsign
    rw [reads_relax, reads_map] at h
    obtain ⟨operand, hoperand, rfl⟩ := h
    exact .unary hsign (derives_of_unary c₁ hoperand) rfl
  · exact derives_of_power c h
termination_by 16 * c.length + 2

theorem derives_of_power (c : Cursor) {e : Expr} {r : Cursor} (h : (power c).Reads e r) :
    Derives .unary c e r := by
  rw [power] at h
  obtain ⟨first, c₁, hlt₁, hfirst, h⟩ := reads_andThen.1 h
  obtain ⟨base, c₂, hlt₂, hsuffixes, h⟩ := reads_andThen.1 h
  have hbase := derives_of_suffixes c₁ (derives_of_primary c hfirst) hsuffixes
  rcases reads_ifNext_cases h with ⟨l, u, c₃, hlt₃, hcaret, haccept, h⟩ | ⟨-, h⟩
  · rw [only_eq_some_iff.1 haccept] at hcaret
    rw [reads_relax, reads_map] at h
    obtain ⟨exponent, hexponent, rfl⟩ := h
    exact .power hbase hcaret (derives_of_unary c₃ hexponent) rfl
  · obtain ⟨rfl, rfl⟩ := reads_done.1 h
    exact .base hbase
termination_by 16 * c.length + 1

/-- What has been read so far is the array of the next index. -/
theorem derives_of_suffixes (c₁ : Cursor) {c r : Cursor} {array e : Expr}
    (harray : Derives .suffixed c array c₁) (h : (suffixes array c₁).Reads e r) :
    Derives .suffixed c e r := by
  rw [suffixes] at h
  rcases reads_ifNext_cases h with ⟨l, u, c₂, hlt₂, hopen, haccept, h⟩ | ⟨-, h⟩
  · rw [only_eq_some_iff.1 haccept] at hopen
    simp only [reads_andThen, reads_relax, reads_expect] at h
    obtain ⟨position, c₃, hlt₃, hposition, s, c₄, hlt₄, hclose, h⟩ := h
    exact derives_of_suffixes c₄
      (.index harray hopen (derives_of_expression c₂ hposition) hclose rfl) h
  · obtain ⟨rfl, rfl⟩ := reads_done.1 h
    exact harray
termination_by 16 * c₁.length

theorem derives_of_primary (c : Cursor) {e : Expr} {r : Cursor} (h : (primary c).Reads e r) :
    Derives .suffixed c e r := by
  rw [primary] at h
  split at h
  · exact (not_reads_fail h).elim
  · exact (not_reads_fail h).elim
  · rename_i l rest shorter hview
    have hpasses := Cursor.passes_of_view hview
    split at h
    case h_1 htoken | h_2 htoken | h_3 htoken | h_4 htoken | h_5 htoken =>
      obtain ⟨rfl, rfl⟩ := reads_ok.1 h
      rw [htoken] at hpasses
      first
        | exact .int hpasses
        | exact .double hpasses
        | exact .string hpasses
        | exact .yes hpasses
        | exact .no hpasses
    case h_6 name htoken =>
      rw [htoken] at hpasses
      rw [reads_mono] at h
      rcases reads_ifNext_cases h with ⟨l', u, c₁, hlt₁, hopen, haccept, h⟩ | ⟨-, h⟩
      · rw [only_eq_some_iff.1 haccept] at hopen
        rw [reads_relax, reads_map] at h
        obtain ⟨⟨args, s⟩, hitems, rfl⟩ := h
        obtain ⟨c₂, hargs, hclose⟩ := derives_of_items .closeParen c₁ hitems
        exact .call hpasses hopen hargs hclose rfl
      · obtain ⟨rfl, rfl⟩ := reads_done.1 h
        exact .ident hpasses
    case h_7 htoken =>
      rw [htoken] at hpasses
      simp only [reads_after, reads_andThen, reads_relax, reads_map, reads_expect] at h
      obtain ⟨inner, c₁, hlt₁, hinner, s, hclose, rfl⟩ := h
      exact .paren hpasses (derives_of_expression rest hinner) hclose
    case h_8 htoken =>
      rw [htoken] at hpasses
      rw [reads_after, reads_map] at h
      obtain ⟨⟨values, s⟩, hitems, rfl⟩ := h
      obtain ⟨c₁, hvalues, hclose⟩ := derives_of_items .closeBracket rest hitems
      exact .array hpasses hvalues hclose rfl
    case h_9 => exact (not_reads_fail h).elim
termination_by 16 * c.length

theorem derives_of_items (close : Punct) (c : Cursor) {es : List Expr} {s : Span} {r : Cursor}
    (h : (items close c).Reads (es, s) r) :
    ∃ c₁, Derives .args c es c₁ ∧ c₁.Passes (.punct close) s r := by
  rw [items] at h
  rcases reads_ifNext_cases h with ⟨l, u, c₁, hlt₁, hclose, haccept, h⟩ | ⟨-, h⟩
  · rw [only_eq_some_iff.1 haccept] at hclose
    obtain ⟨hvalue, rfl⟩ := reads_done.1 h
    cases hvalue
    exact ⟨c, .noArgs, hclose⟩
  · simp only [reads_andThen, reads_relax, reads_map] at h
    obtain ⟨first, c₁, hlt₁, hfirst, ⟨others, s'⟩, hothers, hvalue⟩ := h
    cases hvalue
    obtain ⟨c₂, hes, hclose⟩ :=
      derives_of_moreItems close c₁ (derives_of_expression c hfirst) hothers
    exact ⟨c₂, .args hes, hclose⟩
termination_by 16 * c.length + 14

theorem derives_of_moreItems (close : Punct) (c₁ : Cursor) {c : Cursor} {e : Expr}
    {es : List Expr} {s : Span} {r : Cursor} (he : Derives .expression c e c₁)
    (h : (moreItems close c₁).Reads (es, s) r) :
    ∃ c₂, Derives .someArgs c (e :: es) c₂ ∧ c₂.Passes (.punct close) s r := by
  rw [moreItems] at h
  rcases reads_ifNext_cases h with ⟨l, u, c₂, hlt₂, hcomma, haccept, h⟩ | ⟨-, h⟩
  · rw [only_eq_some_iff.1 haccept] at hcomma
    simp only [reads_andThen, reads_relax, reads_map] at h
    obtain ⟨first, c₃, hlt₃, hfirst, ⟨others, s'⟩, hothers, hvalue⟩ := h
    cases hvalue
    obtain ⟨c₄, hes, hclose⟩ :=
      derives_of_moreItems close c₃ (derives_of_expression c₂ hfirst) hothers
    exact ⟨c₄, .moreArgs he hcomma hes, hclose⟩
  · rw [reads_map] at h
    obtain ⟨span, hclose, hvalue⟩ := h
    cases hvalue
    exact ⟨c₁, .lastArg he, reads_expect.1 hclose⟩
termination_by 16 * c₁.length

end

/-! ## Statements -/

theorem derives_of_param {c : Cursor} {p : Param} {r : Cursor} (h : (param c).Reads p r) :
    Derives .param c p r := by
  rw [param] at h
  obtain ⟨name, c₁, hlt₁, hname, h⟩ := reads_andThen.1 h
  have hname := reads_expectName.1 hname
  rcases reads_ifNext_cases h with ⟨l, u, c₂, hlt₂, hcolon, haccept, h⟩ | ⟨-, h⟩
  · rw [only_eq_some_iff.1 haccept] at hcolon
    rw [reads_relax, reads_map] at h
    obtain ⟨type, htype, rfl⟩ := h
    exact .typed hname hcolon (derives_of_typeName c₂ htype)
  · obtain ⟨rfl, rfl⟩ := reads_done.1 h
    exact .untyped hname

theorem derives_of_moreParams (c : Cursor) {ps : List Param} {r : Cursor}
    (h : (moreParams c).Reads ps r) :
    ∃ c₁ s, Derives .someParams c ps c₁ ∧ c₁.Passes (.punct .closeParen) s r := by
  rw [moreParams] at h
  obtain ⟨first, c₁, hlt₁, hfirst, h⟩ := reads_andThen.1 h
  have hfirst := derives_of_param hfirst
  rcases reads_ifNext_cases h with ⟨l, u, c₂, hlt₂, hcomma, haccept, h⟩ | ⟨-, h⟩
  · rw [only_eq_some_iff.1 haccept] at hcomma
    rw [reads_relax, reads_map] at h
    obtain ⟨others, hothers, rfl⟩ := h
    obtain ⟨c₃, s, hps, hclose⟩ := derives_of_moreParams c₂ hothers
    exact ⟨c₃, s, .moreParams hfirst hcomma hps, hclose⟩
  · rw [reads_relax, reads_map] at h
    obtain ⟨s, hclose, rfl⟩ := h
    exact ⟨c₁, s, .lastParam hfirst, reads_expect.1 hclose⟩
termination_by c.length

theorem derives_of_params {c : Cursor} {ps : List Param} {r : Cursor}
    (h : (params c).Reads ps r) :
    ∃ c₁ s, Derives .params c ps c₁ ∧ c₁.Passes (.punct .closeParen) s r := by
  rw [params] at h
  rcases reads_ifNext_cases h with ⟨l, u, c₁, hlt₁, hclose, haccept, h⟩ | ⟨-, h⟩
  · rw [only_eq_some_iff.1 haccept] at hclose
    obtain ⟨rfl, rfl⟩ := reads_done.1 h
    exact ⟨c, l.span, .noParams, hclose⟩
  · obtain ⟨c₁, s, hps, hclose⟩ := derives_of_moreParams c h
    exact ⟨c₁, s, .params hps, hclose⟩

theorem derives_of_declaration {c : Cursor} {t : Stmt} {r : Cursor}
    (h : (declaration c).Reads t r) : Derives .statement c t r := by
  rw [declaration] at h
  simp only [reads_andThen, reads_relax, reads_map, reads_expect, reads_expectName] at h
  obtain ⟨type, c₁, hlt₁, htype, name, c₂, hlt₂, hname, s, c₃, hlt₃, hassign, init, hinit, rfl⟩ := h
  exact .declare (derives_of_typeName c htype) hname hassign (derives_of_expression c₃ hinit)

theorem derives_of_printed {c c₁ : Cursor} {start : Span} {t : Stmt} {r : Cursor}
    (hword : c.Passes (.keyword .print) start c₁) (h : (printed start c₁).Reads t r) :
    Derives .statement c t r := by
  rw [printed] at h
  simp only [reads_andThen, reads_relax, reads_map, reads_expect] at h
  obtain ⟨s, c₂, hlt₂, hopen, argument, c₃, hlt₃, hargument, s₁, hclose, rfl⟩ := h
  exact .print hword hopen (derives_of_expression c₂ hargument) hclose rfl

theorem derives_of_returned {c c₁ : Cursor} {start : Span} {t : Stmt} {r : Cursor}
    (hword : c.Passes (.keyword .ret) start c₁) (h : (returned start c₁).Reads t r) :
    Derives .statement c t r := by
  rw [returned] at h
  split at h
  · exact (not_reads_fail h).elim
  · rename_i hview
    obtain ⟨rfl, rfl⟩ := reads_done.1 h
    exact .stop hword (not_valueAhead_of_finish hview)
  · rename_i l c₂ shorter hview
    split at h
    · rename_i hvalue
      rw [reads_relax] at h
      obtain ⟨value, c₃, hlt₃, hreads, h⟩ := reads_andThen.1 h
      obtain ⟨rfl, rfl⟩ := reads_done.1 h
      exact .ret hword ((valueAhead_iff_of_view hview).2 hvalue)
        (derives_of_expression c₁ hreads) rfl
    · rename_i hvalue
      obtain ⟨rfl, rfl⟩ := reads_done.1 h
      exact .stop hword (mt (valueAhead_iff_of_view hview).1 hvalue)

theorem derives_of_assignOrCall {c c₁ : Cursor} {target : Name} {t : Stmt} {r : Cursor}
    (htarget : c.PassesName target c₁) (h : (assignOrCall target c₁).Reads t r) :
    Derives .statement c t r := by
  rw [assignOrCall] at h
  split at h
  · exact (not_reads_fail h).elim
  · exact (not_reads_fail h).elim
  · rename_i l c₂ shorter hview
    have hpasses := Cursor.passes_of_view hview
    split at h
    · rename_i htoken
      rw [htoken] at hpasses
      rw [reads_after, reads_map] at h
      obtain ⟨⟨args, s⟩, hitems, rfl⟩ := h
      obtain ⟨c₃, hargs, hclose⟩ := derives_of_items .closeParen c₂ hitems
      exact .callStatement htarget hpasses hargs hclose
    · rename_i sign htoken
      split at h
      · rename_i op hop
        rw [htoken, ← AssignOp.ofSymbol?_eq_some_iff.1 hop] at hpasses
        rw [reads_after, reads_map] at h
        obtain ⟨value, hvalue, rfl⟩ := h
        exact .assign htarget hpasses (derives_of_expression c₂ hvalue)
      · exact (not_reads_fail h).elim
    · exact (not_reads_fail h).elim

mutual

theorem derives_of_statement (c : Cursor) {t : Stmt} {r : Cursor} (h : (statement c).Reads t r) :
    Derives .statement c t r := by
  rw [statement] at h
  split at h
  · exact (not_reads_fail h).elim
  · exact (not_reads_fail h).elim
  · rename_i l c₁ shorter hview
    have hpasses := Cursor.passes_of_view hview
    split at h
    case h_1 htoken =>
      rw [htoken] at hpasses
      exact derives_of_function c₁ hpasses (reads_after.1 h)
    case h_2 htoken =>
      rw [htoken] at hpasses
      exact derives_of_printed hpasses (reads_after.1 h)
    case h_3 htoken =>
      rw [htoken] at hpasses
      simp only [reads_after, reads_andThen, reads_relax, reads_map] at h
      obtain ⟨test, c₂, hlt₂, htest, ⟨body, close⟩, c₃, hlt₃, hblock, ⟨others, last⟩, hbranches,
        rfl⟩ := h
      obtain ⟨hbody, rfl⟩ := derives_of_block c₂ hblock
      obtain ⟨hothers, rfl⟩ := derives_of_branches c₃ hbranches
      exact .cond hpasses (derives_of_expression c₁ htest) hbody hothers rfl
    case h_4 htoken =>
      rw [htoken] at hpasses
      simp only [reads_after, reads_andThen, reads_relax, reads_map] at h
      obtain ⟨test, c₂, hlt₂, htest, ⟨body, close⟩, hblock, rfl⟩ := h
      obtain ⟨hbody, rfl⟩ := derives_of_block c₂ hblock
      exact .loop hpasses (derives_of_expression c₁ htest) hbody rfl
    case h_5 htoken =>
      rw [htoken] at hpasses
      simp only [reads_after, reads_andThen, reads_relax, reads_map, reads_expect,
        reads_expectName] at h
      obtain ⟨iterator, c₂, hlt₂, hiterator, s, c₃, hlt₃, hwithin, collection, c₄, hlt₄,
        hcollection, ⟨body, close⟩, hblock, rfl⟩ := h
      obtain ⟨hbody, rfl⟩ := derives_of_block c₄ hblock
      exact .each hpasses hiterator hwithin (derives_of_expression c₃ hcollection) hbody rfl
    case h_6 htoken =>
      rw [htoken] at hpasses
      exact derives_of_returned hpasses (reads_mono.1 h)
    case h_7 word _ _ _ _ _ _ htoken =>
      split at h
      · exact derives_of_declaration h
      · exact (not_reads_fail h).elim
    case h_8 name htoken =>
      have htarget : c.PassesName ⟨name, l.span⟩ c₁ := by
        rw [htoken] at hpasses
        exact hpasses
      exact derives_of_assignOrCall htarget (reads_after.1 h)
    case h_9 => exact (not_reads_fail h).elim
termination_by 2 * c.length

theorem derives_of_function (c₁ : Cursor) {c : Cursor} {s : Span} {t : Stmt} {r : Cursor}
    (hword : c.Passes (.keyword .func) s c₁) (h : (function c₁).Reads t r) :
    Derives .statement c t r := by
  rw [function] at h
  simp only [reads_andThen, reads_relax, reads_map, reads_expect, reads_expectName] at h
  obtain ⟨name, c₂, hlt₂, hname, s₁, c₃, hlt₃, hopen, ps, c₄, hlt₄, hps, s₂, c₅, hlt₅, harrow,
    result, c₆, hlt₆, hresult, ⟨body, close⟩, hblock, rfl⟩ := h
  obtain ⟨c₇, s₃, hps, hclose⟩ := derives_of_params hps
  obtain ⟨hbody, -⟩ := derives_of_block c₆ hblock
  exact .function hword hname hopen hps hclose harrow (derives_of_typeName c₅ hresult) hbody
termination_by 2 * c₁.length

theorem derives_of_block (c : Cursor) {body : List Stmt} {close : Span} {r : Cursor}
    (h : (block c).Reads (body, close) r) : Derives .block c body r ∧ r.last = close := by
  rw [block] at h
  simp only [reads_andThen, reads_relax, reads_expect] at h
  obtain ⟨s, c₁, hlt₁, hopen, hrest⟩ := h
  obtain ⟨c₂, hbody, hclose⟩ := derives_of_blockRest c₁ hrest
  exact ⟨.block hopen hbody hclose, hclose.2.1⟩
termination_by 2 * c.length

theorem derives_of_blockRest (c : Cursor) {body : List Stmt} {close : Span} {r : Cursor}
    (h : (blockRest c).Reads (body, close) r) :
    ∃ c₁, Derives .statements c body c₁ ∧ c₁.Passes (.punct .closeBrace) close r := by
  rw [blockRest] at h
  split at h
  · exact (not_reads_fail h).elim
  · exact (not_reads_fail h).elim
  · rename_i l c₁ shorter hview
    have hpasses := Cursor.passes_of_view hview
    split at h
    · rename_i htoken
      obtain ⟨hvalue, rfl⟩ := reads_ok.1 h
      cases hvalue
      rw [htoken] at hpasses
      exact ⟨c, .noStatements, hpasses⟩
    · simp only [reads_andThen, reads_relax, reads_map] at h
      obtain ⟨first, c₂, hlt₂, hfirst, ⟨others, close'⟩, hothers, hvalue⟩ := h
      cases hvalue
      obtain ⟨c₃, hothers, hclose⟩ := derives_of_blockRest c₂ hothers
      exact ⟨c₃, .statements (derives_of_statement c hfirst) hothers, hclose⟩
termination_by 2 * c.length + 1

theorem derives_of_branches (c : Cursor) {rest : Chain} {last : Span} {r : Cursor}
    (h : (branches c.last c).Reads (rest, last) r) :
    Derives .branches c rest r ∧ r.last = last := by
  rw [branches] at h
  rcases reads_ifNext_cases h with ⟨l, u, c₁, hlt₁, hword, haccept, h⟩ | ⟨-, h⟩
  · rw [only_eq_some_iff.1 haccept] at hword
    rcases reads_ifNext_cases h with ⟨l', u', c₂, hlt₂, hword', haccept', h⟩ | ⟨-, h⟩
    · rw [only_eq_some_iff.1 haccept'] at hword'
      simp only [reads_andThen, reads_relax, reads_map] at h
      obtain ⟨test, c₃, hlt₃, htest, ⟨body, close⟩, c₄, hlt₄, hblock, ⟨others, last'⟩, hbranches,
        hvalue⟩ := h
      cases hvalue
      obtain ⟨hbody, rfl⟩ := derives_of_block c₃ hblock
      obtain ⟨hothers, hlast⟩ := derives_of_branches c₄ hbranches
      exact ⟨.also hword hword' (derives_of_expression c₂ htest) hbody hothers, hlast⟩
    · simp only [reads_relax, reads_map] at h
      obtain ⟨⟨body, close⟩, hblock, hvalue⟩ := h
      cases hvalue
      obtain ⟨hbody, hlast⟩ := derives_of_block c₁ hblock
      exact ⟨.otherwise hword hbody, hlast⟩
  · obtain ⟨hvalue, rfl⟩ := reads_done.1 h
    cases hvalue
    exact ⟨.finish, rfl⟩
termination_by 2 * c.length

end

theorem isProgram_of_program (c : Cursor) {statements : List Stmt} {r : Cursor}
    (h : (program c).Reads statements r) : IsProgram c statements := by
  rw [program] at h
  split at h
  · exact (not_reads_fail h).elim
  · rename_i hview
    obtain ⟨rfl, rfl⟩ := reads_done.1 h
    exact ⟨r, .noStatements, Cursor.items_of_view_finish hview⟩
  · simp only [reads_andThen, reads_relax, reads_map] at h
    obtain ⟨first, c₁, hlt₁, hfirst, others, hothers, rfl⟩ := h
    obtain ⟨r', hothers, hnil⟩ := isProgram_of_program c₁ hothers
    exact ⟨r', .statements (derives_of_statement c hfirst) hothers, hnil⟩
termination_by c.length

/-- What the parser accepts is a program of the grammar. -/
theorem isProgram_of_parse {source : String} {statements : List Stmt}
    (h : parse source = .ok statements) : IsProgram (Cursor.ofSource source) statements := by
  rw [parse] at h
  cases hprogram : program (Cursor.ofSource source) with
  | ok value rest bound =>
      rw [hprogram] at h
      cases h
      exact isProgram_of_program _ ⟨bound, hprogram⟩
  | fail error rest =>
      rw [hprogram] at h
      cases h

end Surface
end Barista
