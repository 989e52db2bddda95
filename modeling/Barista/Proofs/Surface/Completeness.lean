import Barista.Proofs.Surface.Soundness

/-!
# What is derived is read

Reading is decided by the next token alone, so a phrase is read in full when the token behind it
cannot belong to it.  How far a token can reach into the phrase in front of it is a number, its
grip; each kind of phrase is read if everything behind it has a greater grip.  The two loops, over
the operators of a level and over indices, are read from the left while the grammar nests there:
there a phrase is one from which the loop can go on.
-/

namespace Barista
namespace Surface

open Cursor (only reads_expect reads_expectName only_self only_eq_none_iff
  reads_ifNext_present reads_ifNext_absent)
open Outcome

/-! ## What a phrase begins with -/

/-- The tokens with which a statement can begin. -/
def startsStatement : Token → Bool
  | .ident _ => true
  | .keyword word => word.startsType || word ∈ [.func, .print, .cond, .loop, .each, .ret]
  | _ => false

namespace Phrase

def startsWith : Phrase → Token → Bool
  | type => fun
    | .keyword word => word.startsType
    | _ => false
  | expression | level _ | operand _ | unary | args | someArgs => Token.startsExpression
  | suffixed => fun token ↦ token.startsExpression && (unaryOp? token).isNone
  | param | params | someParams => fun
    | .ident _ => true
    | _ => false
  | statement | statements => startsStatement
  | block => (· = .punct .openBrace)
  | branches => (· = .keyword .otherwise)

def mayBeEmpty : Phrase → Bool
  | args | params | statements | branches => true
  | _ => false

end Phrase

theorem startsType_of_plainType? {word : Keyword} {type : Ty} (h : plainType? word = some type) :
    word.startsType = true := by
  cases word <;> first | rfl | cases h

theorem startsExpression_unaryOp (op : UnaryOp) :
    (Token.symbol op.symbol).startsExpression = true := by
  cases op <;> rfl

theorem Derives.starts {p : Phrase} {c r : Cursor} {t : p.Tree} (h : Derives p c t r) :
    c.Ahead (p.startsWith · = true) ∨ p.mayBeEmpty = true ∧ r = c := by
  induction h with
  | plainType hword htype => exact .inl (hword.ahead (startsType_of_plainType? htype))
  | arrayType hword => exact .inl (hword.ahead rfl)
  | plain _ ih | single _ ih | tighter _ _ ih | tightest _ ih | ternary _ _ _ _ _ _ ih
  | operation _ _ _ _ _ _ ih | comparison _ _ _ _ _ ih | index _ _ _ _ _ ih | args _ ih
  | lastArg _ ih | moreArgs _ _ _ ih | params _ ih | lastParam _ ih | moreParams _ _ _ ih
  | statements _ _ ih =>
      exact .inl (ih.resolve_right fun h ↦ nomatch h.1)
  | unary hsign => exact .inl (hsign.ahead (startsExpression_unaryOp _))
  | power _ _ _ _ ih | base _ ih =>
      refine .inl ((ih.resolve_right fun h ↦ nomatch h.1).imp ?_)
      intro token htoken
      exact (Bool.and_eq_true_iff.1 htoken).1
  | int h | double h | string h | yes h | no h | ident h => exact .inl (h.ahead rfl)
  | call hname | untyped hname | typed hname | assign hname | callStatement hname =>
      exact .inl (hname.ahead rfl)
  | paren hopen | array hopen | block hopen => exact .inl (hopen.ahead rfl)
  | noArgs | noParams | noStatements | finish => exact .inr ⟨rfl, rfl⟩
  | declare _ _ _ _ ih =>
      refine .inl ((ih.resolve_right fun h ↦ nomatch h.1).imp ?_)
      rintro (_ | _ | _ | _ | word | _ | _) htoken
      case keyword => exact Bool.or_eq_true_iff.2 (.inl htoken)
      all_goals cases htoken
  | function hword | print hword | cond hword | loop hword | each hword | ret hword | stop hword
  | otherwise hword | also hword =>
      exact .inl (hword.ahead rfl)

theorem Derives.ahead {p : Phrase} {c r : Cursor} {t : p.Tree} (h : Derives p c t r)
    (hp : p.mayBeEmpty = false) : c.Ahead (p.startsWith · = true) := by
  rcases h.starts with hahead | ⟨hempty, -⟩
  · exact hahead
  · rw [hp] at hempty
    cases hempty

/-! ## What can stand behind a phrase -/

/-- The kinds of phrase into which a token can reach from behind: a call, an index, a power, the
operations of each level, a choice, a conditional, or none. -/
def grip : Token → Nat
  | .punct .openParen => 0
  | .punct .openBracket => 1
  | .symbol .caret => 2
  | .symbol .star | .symbol .slash => 3
  | .symbol .plus | .symbol .minus => 4
  | .symbol .less | .symbol .lessEqual | .symbol .equal | .symbol .notEqual
  | .symbol .greaterEqual | .symbol .greater => 5
  | .symbol .both => 6
  | .symbol .either => 7
  | .punct .question => 8
  | .keyword .otherwise => 9
  | _ => 10

/-- Nothing ahead has this grip or a smaller one. -/
def Stops (n : Nat) (c : Cursor) : Prop :=
  c.Clear (n < grip ·)

theorem grip_operator {l : Level} {op : BinaryOp} (h : op ∈ l.operators) :
    grip (.symbol op.symbol) = l.rank + 2 := by
  cases l <;> cases op <;> first | rfl | exact absurd h (by decide)

theorem grip_of_startsStatement {token : Token} (h : startsStatement token = true) :
    grip token = 10 := by
  rcases token with _ | _ | _ | _ | word | _ | _
  case keyword => cases word <;> first | rfl | cases h
  case ident => rfl
  all_goals cases h

section Stops

variable {n m : Nat} {c r : Cursor} {token : Token} {s : Span}

theorem Stops.mono (h : Stops n c) (hm : m ≤ n) : Stops m c :=
  Cursor.Clear.imp h fun _ hgrip ↦ Nat.lt_of_le_of_lt hm hgrip

theorem stops_of_passes (h : c.Passes token s r) (hgrip : n < grip token) : Stops n c :=
  h.clear hgrip

theorem stops_of_operator {l : Level} {op : BinaryOp} (h : c.Passes (.symbol op.symbol) s r)
    (hop : op ∈ l.operators) : Stops (l.rank + 1) c := by
  refine stops_of_passes h ?_
  rw [grip_operator hop]
  exact Nat.lt_succ_self _

theorem stops_of_nil (h : c.items = []) : Stops n c :=
  .inl h

theorem Stops.not_only (h : Stops n c) (hgrip : grip token ≤ n) :
    c.Clear (only token · = none) := by
  refine Cursor.Clear.imp h ?_
  rintro found hfound
  rw [only_eq_none_iff]
  rintro rfl
  omega

theorem Stops.not_operator {l : Level} (h : Stops n c) (hl : l.rank + 2 ≤ n) :
    c.Clear (l.operator? · = none) := by
  refine Cursor.Clear.imp h ?_
  intro found hfound
  rw [Option.eq_none_iff_forall_not_mem]
  intro op hop
  obtain ⟨hmem, rfl⟩ := Level.operator?_eq_some_iff.1 hop
  rw [grip_operator hmem] at hfound
  omega

theorem stops_of_block {body : List Stmt} (h : Derives .block c body r) (hn : n < 10) :
    Stops n c := by
  refine ((h.ahead rfl).imp ?_).clear
  rintro token htoken
  rw [of_decide_eq_true htoken]
  exact hn

/-- Behind a statement stand other statements, the end of a block or the end of the text. -/
theorem stops_of_statements {others : List Stmt} (h : Derives .statements c others r)
    (hr : Stops 9 r) : Stops 9 c := by
  rcases h.starts with hahead | ⟨-, rfl⟩
  · refine (hahead.imp ?_).clear
    intro token htoken
    rw [grip_of_startsStatement htoken]
    decide
  · exact hr

end Stops

/-! ## Types and expressions -/

section Expressions

variable {c c₁ c₂ c₃ c₄ r r' : Cursor} {s s₁ s₂ span : Span}

theorem reads_plainType {word : Keyword} {type : TypeName}
    (hword : c.Passes (.keyword word) type.span r) (htype : plainType? word = some type.type) :
    (typeName c).Reads type r := by
  obtain ⟨onNewLine, shorter, hview⟩ := hword.view
  obtain ⟨type, span⟩ := type
  rw [typeName, hview]
  cases word <;> cases htype <;> exact reads_ok.2 ⟨rfl, rfl⟩

theorem reads_arrayType {element : TypeName} (hword : c.Passes (.keyword .array) s c₁)
    (hopen : c₁.Passes (.punct .openBracket) s₁ c₂) (helement : (typeName c₂).Reads element c₃)
    (hclose : c₃.Passes (.punct .closeBracket) s₂ r) :
    (typeName c).Reads ⟨.array element.type, s.merge s₂⟩ r := by
  obtain ⟨onNewLine, shorter, hview⟩ := hword.view
  rw [typeName, hview]
  dsimp only
  exact ((reads_expect.2 hopen).andThen
    (helement.andThen ((reads_expect.2 hclose).map _).relax).relax).after

theorem reads_plain {e : Expr} (h : (binary .or c).Reads e r) (hr : Stops 8 r) :
    (expression c).Reads e r := by
  rw [expression]
  exact h.andThen (reads_ifNext_absent (hr.not_only (by decide)) (reads_done.2 ⟨rfl, rfl⟩))

theorem reads_ternary {test yes no : Expr} (htest : (binary .or c).Reads test c₁)
    (hquestion : c₁.Passes (.punct .question) s c₂) (hyes : (binary .or c₂).Reads yes c₃)
    (hcolon : c₃.Passes (.punct .colon) s₁ c₄) (hno : (expression c₄).Reads no r) :
    (expression c).Reads (.ternary test yes no (test.span.merge no.span)) r := by
  rw [expression]
  refine htest.andThen (reads_ifNext_present hquestion (only_self _) fun onNewLine ↦ ?_)
  exact (hyes.andThen ((reads_expect.2 hcolon).andThen (hno.map _).relax).relax).relax

/-- Nothing is left of a level when no operator of it is ahead. -/
theorem reads_chain_done {l : Level} {e : Expr} (h : Stops (l.rank + 2) c) :
    (chain l e c).Reads e c := by
  rw [chain]
  exact reads_ifNext_absent (h.not_operator (Nat.le_refl _)) (reads_done.2 ⟨rfl, rfl⟩)

theorem reads_chain_step {l : Level} (hlevel : l ≠ .comparison) {op : BinaryOp}
    {left right x : Expr} (hop : op ∈ l.operators) (hsign : c.Passes (.symbol op.symbol) s c₁)
    (hright : (operand l c₁).Reads right c₂)
    (h : (chain l (.binary op left right (left.span.merge right.span)) c₂).Reads x r) :
    (chain l left c).Reads x r := by
  rw [chain]
  refine reads_ifNext_present hsign (Level.operator?_eq_some_iff.2 ⟨hop, rfl⟩) fun onNewLine ↦ ?_
  refine (hright.andThen ?_).relax
  dsimp only
  rwa [if_pos (Level.repeats_iff.2 hlevel)]

theorem reads_comparison {op : BinaryOp} {left right : Expr}
    (hleft : (operand .comparison c).Reads left c₁) (hop : op ∈ Level.comparison.operators)
    (hsign : c₁.Passes (.symbol op.symbol) s c₂)
    (hright : (operand .comparison c₂).Reads right r) :
    (binary .comparison c).Reads (.binary op left right (left.span.merge right.span)) r := by
  rw [binary]
  refine hleft.andThen ?_
  rw [chain]
  refine reads_ifNext_present hsign (Level.operator?_eq_some_iff.2 ⟨hop, rfl⟩) fun onNewLine ↦ ?_
  exact (hright.andThen (reads_done.2 ⟨rfl, rfl⟩)).relax

theorem reads_operand {l l' : Level} {e : Expr} (hl : l.tighter? = some l')
    (h : (binary l' c).Reads e r) : (operand l c).Reads e r := by
  cases l <;> cases hl <;> rwa [operand]

theorem rank_of_tighter? {l l' : Level} (hl : l.tighter? = some l') :
    l.rank + 1 = l'.rank + 2 := by
  cases l <;> cases hl <;> rfl

theorem reads_unary {op : UnaryOp} {e : Expr} (hsign : c.Passes (.symbol op.symbol) s c₁)
    (he : (unary c₁).Reads e r) : (unary c).Reads (.unary op e (s.merge e.span)) r := by
  rw [unary]
  refine reads_ifNext_present hsign (unaryOp?_eq_some_iff.2 rfl) fun onNewLine ↦ ?_
  exact (he.map _).relax

theorem reads_of_power {e : Expr} (hahead : c.Ahead (Phrase.suffixed.startsWith · = true))
    (h : (power c).Reads e r) : (unary c).Reads e r := by
  rw [unary]
  refine reads_ifNext_absent (hahead.imp ?_).clear h
  intro token htoken
  exact Option.isNone_iff_eq_none.1 (Bool.and_eq_true_iff.1 htoken).2

theorem reads_power {first base exponent : Expr} (hfirst : (primary c).Reads first c₁)
    (hbase : (suffixes first c₁).Reads base c₂) (hcaret : c₂.Passes (.symbol .caret) s c₃)
    (hexponent : (unary c₃).Reads exponent r) :
    (power c).Reads (.binary .pow base exponent (base.span.merge exponent.span)) r := by
  rw [power]
  refine hfirst.andThen (hbase.andThen ?_)
  refine reads_ifNext_present hcaret (only_self _) fun onNewLine ↦ ?_
  exact (hexponent.map _).relax

theorem reads_base {first base : Expr} (hfirst : (primary c).Reads first c₁)
    (hbase : (suffixes first c₁).Reads base r) (hr : Stops 2 r) : (power c).Reads base r := by
  rw [power]
  refine hfirst.andThen (hbase.andThen ?_)
  exact reads_ifNext_absent (hr.not_only (by decide)) (reads_done.2 ⟨rfl, rfl⟩)

theorem reads_suffixes_done {e : Expr} (h : Stops 1 c) : (suffixes e c).Reads e c := by
  rw [suffixes]
  exact reads_ifNext_absent (h.not_only (by decide)) (reads_done.2 ⟨rfl, rfl⟩)

theorem reads_suffixes_step {array position x : Expr} (hopen : c.Passes (.punct .openBracket) s c₁)
    (hposition : (expression c₁).Reads position c₂)
    (hclose : c₂.Passes (.punct .closeBracket) s₁ c₃)
    (h : (suffixes (.index array position (array.span.merge s₁)) c₃).Reads x r) :
    (suffixes array c).Reads x r := by
  rw [suffixes]
  refine reads_ifNext_present hopen (only_self _) fun onNewLine ↦ ?_
  exact (hposition.andThen ((reads_expect.2 hclose).andThen h).relax).relax

/-- The literals are read without looking further. -/
def literal? : Token → Option (Span → Expr)
  | .int value => some (.int value)
  | .double value => some (.double value)
  | .string value => some (.string value)
  | .keyword .yes => some (.bool true)
  | .keyword .no => some (.bool false)
  | _ => none

theorem reads_literal {token : Token} {e : Span → Expr} (h : c.Passes token s r)
    (he : literal? token = some e) : (primary c).Reads (e s) r := by
  obtain ⟨onNewLine, shorter, hview⟩ := h.view
  rw [primary, hview]
  rcases token with value | value | value | name | word | sign | mark
  case keyword => cases word <;> cases he <;> exact reads_ok.2 ⟨rfl, rfl⟩
  all_goals cases he
  all_goals exact reads_ok.2 ⟨rfl, rfl⟩

theorem reads_ident {name : String} (h : c.Passes (.ident name) s r) (hr : Stops 0 r) :
    (primary c).Reads (.ident name s) r := by
  obtain ⟨onNewLine, shorter, hview⟩ := h.view
  rw [primary, hview]
  dsimp only
  rw [reads_mono]
  exact reads_ifNext_absent (hr.not_only (by decide)) (reads_done.2 ⟨rfl, rfl⟩)

theorem reads_call {callee : Name} {args : List Expr} (hcallee : c.PassesName callee c₁)
    (hopen : c₁.Passes (.punct .openParen) s c₂)
    (hitems : (items .closeParen c₂).Reads (args, s₁) r) :
    (primary c).Reads (.call callee args s (callee.span.merge s₁)) r := by
  obtain ⟨onNewLine, shorter, hview⟩ := hcallee.view
  rw [primary, hview]
  dsimp only
  rw [reads_mono]
  refine reads_ifNext_present hopen (only_self _) fun onNewLine ↦ ?_
  exact (hitems.map _).relax

theorem reads_paren {e : Expr} (hopen : c.Passes (.punct .openParen) s c₁)
    (he : (expression c₁).Reads e c₂) (hclose : c₂.Passes (.punct .closeParen) s₁ r) :
    (primary c).Reads e r := by
  obtain ⟨onNewLine, shorter, hview⟩ := hopen.view
  rw [primary, hview]
  dsimp only
  exact (he.andThen ((reads_expect.2 hclose).map _).relax).after

theorem reads_array {values : List Expr} (hopen : c.Passes (.punct .openBracket) s c₁)
    (hitems : (items .closeBracket c₁).Reads (values, s₁) r) :
    (primary c).Reads (.array values (s.merge s₁)) r := by
  obtain ⟨onNewLine, shorter, hview⟩ := hopen.view
  rw [primary, hview]
  dsimp only
  exact (hitems.map _).after

theorem reads_noItems {close : Punct} (h : c.Passes (.punct close) s r) :
    (items close c).Reads ([], s) r := by
  rw [items]
  exact reads_ifNext_present h (only_self _) fun onNewLine ↦ reads_done.2 ⟨rfl, rfl⟩

theorem reads_items {close : Punct} {e : Expr} {es : List Expr}
    (hahead : c.Ahead (·.startsExpression = true))
    (hclose : (Token.punct close).startsExpression = false)
    (he : (expression c).Reads e c₁) (hes : (moreItems close c₁).Reads (es, s) r) :
    (items close c).Reads (e :: es, s) r := by
  rw [items]
  refine reads_ifNext_absent (hahead.imp ?_).clear (he.andThen (hes.map _).relax)
  rintro token htoken
  rw [only_eq_none_iff]
  rintro rfl
  rw [hclose] at htoken
  cases htoken

theorem reads_moreItems_done {close : Punct} (h : c.Passes (.punct close) s r)
    (hclose : close ≠ .comma) : (moreItems close c).Reads ([], s) r := by
  rw [moreItems]
  refine reads_ifNext_absent (h.clear (only_eq_none_iff.2 ?_)) ((reads_expect.2 h).map _)
  rintro ⟨⟩
  exact hclose rfl

theorem reads_moreItems_step {close : Punct} {e : Expr} {es : List Expr}
    (hcomma : c.Passes (.punct .comma) s c₁) (he : (expression c₁).Reads e c₂)
    (hes : (moreItems close c₂).Reads (es, s₁) r) :
    (moreItems close c).Reads (e :: es, s₁) r := by
  rw [moreItems]
  refine reads_ifNext_present hcomma (only_self _) fun onNewLine ↦ ?_
  exact (he.andThen (hes.map _).relax).relax

end Expressions

/-! ## Statements -/

section Statements

variable {c c₁ c₂ c₃ c₄ c₅ c₆ c₇ r : Cursor} {s s₁ s₂ s₃ : Span}

theorem reads_untyped {name : Name} (hname : c.PassesName name r)
    (hr : r.Clear (· ≠ .punct .colon)) : (param c).Reads ⟨name, none⟩ r := by
  rw [param]
  refine (reads_expectName.2 hname).andThen (reads_ifNext_absent ?_ (reads_done.2 ⟨rfl, rfl⟩))
  exact hr.imp fun _ htoken ↦ only_eq_none_iff.2 htoken

theorem reads_typed {name : Name} {type : TypeName} (hname : c.PassesName name c₁)
    (hcolon : c₁.Passes (.punct .colon) s c₂) (htype : (typeName c₂).Reads type r) :
    (param c).Reads ⟨name, some type⟩ r := by
  rw [param]
  refine (reads_expectName.2 hname).andThen
    (reads_ifNext_present hcolon (only_self _) fun onNewLine ↦ ?_)
  exact (htype.map _).relax

theorem reads_lastParam {p : Param} (hp : (param c).Reads p c₁)
    (hclose : c₁.Passes (.punct .closeParen) s r) : (moreParams c).Reads [p] r := by
  rw [moreParams]
  refine hp.andThen (reads_ifNext_absent (hclose.clear (only_eq_none_iff.2 ?_)) ?_)
  · rintro ⟨⟩
  · exact ((reads_expect.2 hclose).map _).relax

theorem reads_moreParams {p : Param} {ps : List Param} (hp : (param c).Reads p c₁)
    (hcomma : c₁.Passes (.punct .comma) s c₂) (hps : (moreParams c₂).Reads ps r) :
    (moreParams c).Reads (p :: ps) r := by
  rw [moreParams]
  refine hp.andThen (reads_ifNext_present hcomma (only_self _) fun onNewLine ↦ ?_)
  exact (hps.map _).relax

theorem reads_noParams (hclose : c.Passes (.punct .closeParen) s r) : (params c).Reads [] r := by
  rw [params]
  exact reads_ifNext_present hclose (only_self _) fun onNewLine ↦ reads_done.2 ⟨rfl, rfl⟩

theorem reads_params {ps : List Param} (hahead : c.Ahead (Phrase.params.startsWith · = true))
    (hps : (moreParams c).Reads ps r) : (params c).Reads ps r := by
  rw [params]
  refine reads_ifNext_absent (hahead.imp ?_).clear hps
  rintro token htoken
  rw [only_eq_none_iff]
  rintro rfl
  cases htoken

theorem reads_declare {type : TypeName} {name : Name} {init : Expr}
    (hahead : c.Ahead (Phrase.type.startsWith · = true)) (htype : (typeName c).Reads type c₁)
    (hname : c₁.PassesName name c₂) (hassign : c₂.Passes (.symbol .assign) s c₃)
    (hinit : (expression c₃).Reads init r) : (statement c).Reads (.declare type name init) r := by
  have hdeclaration : (declaration c).Reads (.declare type name init) r := by
    rw [declaration]
    exact htype.andThen ((reads_expectName.2 hname).andThen
      ((reads_expect.2 hassign).andThen (hinit.map _).relax).relax).relax
  obtain ⟨token, span, rest, hpasses, htoken⟩ := hahead.exists_passes
  obtain ⟨onNewLine, shorter, hview⟩ := hpasses.view
  rw [statement, hview]
  rcases token with _ | _ | _ | _ | word | _ | _
  case keyword => cases word <;> first | exact hdeclaration | cases htoken
  all_goals cases htoken

theorem reads_function {name : Name} {ps : List Param} {result : TypeName} {body : List Stmt}
    (hword : c.Passes (.keyword .func) s c₁) (hname : c₁.PassesName name c₂)
    (hopen : c₂.Passes (.punct .openParen) s₁ c₃) (hparams : (params c₃).Reads ps c₄)
    (harrow : c₄.Passes (.punct .arrow) s₂ c₅) (hresult : (typeName c₅).Reads result c₆)
    (hbody : (block c₆).Reads (body, s₃) r) :
    (statement c).Reads (.function name ps result body) r := by
  obtain ⟨onNewLine, shorter, hview⟩ := hword.view
  rw [statement, hview]
  dsimp only
  rw [reads_after, function]
  exact (reads_expectName.2 hname).andThen ((reads_expect.2 hopen).andThen
    (hparams.andThen ((reads_expect.2 harrow).andThen
      (hresult.andThen (hbody.map _).relax).relax).relax).relax).relax

theorem reads_assign {target : Name} {op : AssignOp} {value : Expr}
    (htarget : c.PassesName target c₁) (hsign : c₁.Passes (.symbol op.symbol) s c₂)
    (hvalue : (expression c₂).Reads value r) :
    (statement c).Reads (.assign target op s value) r := by
  obtain ⟨onNewLine, shorter, hview⟩ := htarget.view
  rw [statement, hview]
  dsimp only
  obtain ⟨onNewLine', shorter', hview'⟩ := hsign.view
  rw [reads_after, assignOrCall, hview']
  dsimp only
  rw [AssignOp.ofSymbol?_eq_some_iff.2 rfl]
  exact (hvalue.map _).after

theorem reads_callStatement {callee : Name} {args : List Expr} (hcallee : c.PassesName callee c₁)
    (hopen : c₁.Passes (.punct .openParen) s c₂)
    (hitems : (items .closeParen c₂).Reads (args, s₁) r) :
    (statement c).Reads (.call callee args s) r := by
  obtain ⟨onNewLine, shorter, hview⟩ := hcallee.view
  rw [statement, hview]
  dsimp only
  obtain ⟨onNewLine', shorter', hview'⟩ := hopen.view
  rw [reads_after, assignOrCall, hview']
  exact (hitems.map _).after

theorem reads_print {argument : Expr} (hword : c.Passes (.keyword .print) s c₁)
    (hopen : c₁.Passes (.punct .openParen) s₁ c₂) (hargument : (expression c₂).Reads argument c₃)
    (hclose : c₃.Passes (.punct .closeParen) s₂ r) :
    (statement c).Reads (.print argument (s.merge s₂)) r := by
  obtain ⟨onNewLine, shorter, hview⟩ := hword.view
  rw [statement, hview]
  dsimp only
  rw [reads_after, printed]
  exact (reads_expect.2 hopen).andThen
    (hargument.andThen ((reads_expect.2 hclose).map _).relax).relax

theorem reads_cond {test : Expr} {body : List Stmt} {rest : Chain}
    (hword : c.Passes (.keyword .cond) s c₁) (htest : (expression c₁).Reads test c₂)
    (hbody : (block c₂).Reads (body, s₁) c₃) (hrest : (branches s₁ c₃).Reads (rest, s₂) r) :
    (statement c).Reads (.cond test body rest (s.merge s₂)) r := by
  obtain ⟨onNewLine, shorter, hview⟩ := hword.view
  rw [statement, hview]
  exact (htest.andThen (hbody.andThen (hrest.map _)).relax).after

theorem reads_loop {test : Expr} {body : List Stmt} (hword : c.Passes (.keyword .loop) s c₁)
    (htest : (expression c₁).Reads test c₂) (hbody : (block c₂).Reads (body, s₁) r) :
    (statement c).Reads (.loop test body (s.merge s₁)) r := by
  obtain ⟨onNewLine, shorter, hview⟩ := hword.view
  rw [statement, hview]
  exact (htest.andThen (hbody.map _).relax).after

theorem reads_each {iterator : Name} {collection : Expr} {body : List Stmt}
    (hword : c.Passes (.keyword .each) s c₁) (hiterator : c₁.PassesName iterator c₂)
    (hwithin : c₂.Passes (.keyword .within) s₁ c₃)
    (hcollection : (expression c₃).Reads collection c₄) (hbody : (block c₄).Reads (body, s₂) r) :
    (statement c).Reads (.each iterator collection body (s.merge s₂)) r := by
  obtain ⟨onNewLine, shorter, hview⟩ := hword.view
  rw [statement, hview]
  exact ((reads_expectName.2 hiterator).andThen ((reads_expect.2 hwithin).andThen
    (hcollection.andThen (hbody.map _).relax).relax).relax).after

theorem reads_ret {value : Expr} (hword : c.Passes (.keyword .ret) s c₁)
    (hahead : valueAhead c₁) (hvalue : (expression c₁).Reads value r) :
    (statement c).Reads (.ret (some value) (s.merge r.last)) r := by
  obtain ⟨onNewLine, shorter, hview⟩ := hword.view
  rw [statement, hview]
  dsimp only
  obtain ⟨l, items, hitems, hvalueAhead⟩ := id hahead
  have hpasses : c₁.Passes l.token l.span ⟨items, l.span, c₁.stop⟩ :=
    ⟨⟨l.onNewLine, hitems⟩, rfl, rfl⟩
  obtain ⟨onNewLine', shorter', hview'⟩ := hpasses.view
  have hcond := (valueAhead_iff_of_view hview').1 hahead
  rw [reads_mono, returned, hview']
  dsimp only at hcond ⊢
  rw [if_pos hcond]
  exact (hvalue.andThen (reads_done.2 ⟨rfl, rfl⟩)).relax

theorem reads_stop (hword : c.Passes (.keyword .ret) s r) (hahead : ¬ valueAhead r)
    (hr : Stops 9 r) : (statement c).Reads (.ret none s) r := by
  obtain ⟨onNewLine, shorter, hview⟩ := hword.view
  rw [statement, hview]
  dsimp only
  rw [reads_mono, returned]
  rcases hr with hnil | hnext
  · rw [Cursor.view_of_items_nil hnil]
    exact reads_done.2 ⟨rfl, rfl⟩
  · obtain ⟨token, span, rest, hpasses, -⟩ := hnext.exists_passes
    obtain ⟨onNewLine', shorter', hview'⟩ := hpasses.view
    have hcond := mt (valueAhead_iff_of_view hview').2 hahead
    rw [hview']
    dsimp only at hcond ⊢
    rw [if_neg hcond]
    exact reads_done.2 ⟨rfl, rfl⟩

theorem reads_block {body : List Stmt} (hopen : c.Passes (.punct .openBrace) s c₁)
    (hbody : (blockRest c₁).Reads (body, s₁) r) : (block c).Reads (body, s₁) r := by
  rw [block]
  exact (reads_expect.2 hopen).andThen hbody.relax

theorem reads_blockRest_done (hclose : c.Passes (.punct .closeBrace) s r) :
    (blockRest c).Reads ([], s) r := by
  obtain ⟨onNewLine, shorter, hview⟩ := hclose.view
  rw [blockRest, hview]
  exact reads_ok.2 ⟨rfl, rfl⟩

theorem reads_blockRest_step {first : Stmt} {others : List Stmt}
    (hahead : c.Ahead (startsStatement · = true)) (hfirst : (statement c).Reads first c₁)
    (hothers : (blockRest c₁).Reads (others, s) r) :
    (blockRest c).Reads (first :: others, s) r := by
  obtain ⟨token, span, rest, hpasses, htoken⟩ := hahead.exists_passes
  obtain ⟨onNewLine, shorter, hview⟩ := hpasses.view
  rw [blockRest, hview]
  dsimp only
  rw [if_neg (fun h ↦ by rw [h] at htoken; cases htoken)]
  exact hfirst.andThen (hothers.map _).relax

theorem reads_finish (h : Stops 9 c) : (branches s c).Reads (.finish, s) c := by
  rw [branches]
  exact reads_ifNext_absent (h.not_only (by decide)) (reads_done.2 ⟨rfl, rfl⟩)

theorem reads_otherwise {body : List Stmt} (hword : c.Passes (.keyword .otherwise) s₁ c₁)
    (hahead : c₁.Ahead (Phrase.block.startsWith · = true))
    (hbody : (block c₁).Reads (body, s₂) r) : (branches s c).Reads (.otherwise body, s₂) r := by
  rw [branches]
  refine reads_ifNext_present hword (only_self _) fun onNewLine ↦ ?_
  refine reads_ifNext_absent (hahead.imp ?_).clear (hbody.map _).relax
  intro token htoken
  rw [of_decide_eq_true htoken]
  rfl

theorem reads_also {test : Expr} {body : List Stmt} {rest : Chain}
    (hword : c.Passes (.keyword .otherwise) s₁ c₁) (hword' : c₁.Passes (.keyword .cond) s₂ c₂)
    (htest : (expression c₂).Reads test c₃) (hbody : (block c₃).Reads (body, s₃) c₄) {s₄ : Span}
    (hrest : (branches s₃ c₄).Reads (rest, s₄) r) :
    (branches s c).Reads (.also test body rest, s₄) r := by
  rw [branches]
  refine reads_ifNext_present hword (only_self _) fun onNewLine ↦ ?_
  refine reads_ifNext_present hword' (only_self _) fun onNewLine' ↦ ?_
  exact (htest.andThen (hbody.andThen (hrest.map _)).relax).relax

theorem reads_program_done (h : c.items = []) : (program c).Reads [] c := by
  rw [program, Cursor.view_of_items_nil h]
  exact reads_done.2 ⟨rfl, rfl⟩

theorem reads_program_step {first : Stmt} {others : List Stmt}
    (hahead : c.Ahead (startsStatement · = true)) (hfirst : (statement c).Reads first c₁)
    (hothers : (program c₁).Reads others r) : (program c).Reads (first :: others) r := by
  obtain ⟨token, span, rest, hpasses, -⟩ := hahead.exists_passes
  obtain ⟨onNewLine, shorter, hview⟩ := hpasses.view
  rw [program, hview]
  exact (hfirst.andThen (hothers.map _)).relax

end Statements

/-! ## Every phrase -/

/-- How a phrase is read, given what stands behind it. -/
def ReadAs : (p : Phrase) → Cursor → p.Tree → Cursor → Prop
  | .type, c, type, r => (typeName c).Reads type r
  | .expression, c, e, r => Stops 8 r → (expression c).Reads e r
  | .level l, c, e, r =>
      (l ≠ .comparison → Stops (l.rank + 1) r →
        ∀ x r', (chain l e r).Reads x r' → (binary l c).Reads x r') ∧
      (Stops (l.rank + 2) r → (binary l c).Reads e r)
  | .operand l, c, e, r => Stops (l.rank + 1) r → (operand l c).Reads e r
  | .unary, c, e, r => Stops 2 r → (unary c).Reads e r
  | .suffixed, c, e, r =>
      Stops 0 r → ∀ x r', (suffixes e r).Reads x r' →
        ∃ first c₁, (primary c).Reads first c₁ ∧ (suffixes first c₁).Reads x r'
  | .args, c, es, r =>
      ∀ close ∈ [Punct.closeParen, .closeBracket], ∀ s r', r.Passes (.punct close) s r' →
        (items close c).Reads (es, s) r'
  | .someArgs, c, es, r =>
      ∀ close ∈ [Punct.closeParen, .closeBracket], ∀ s r', r.Passes (.punct close) s r' →
        ∃ first others c₁, es = first :: others ∧ (expression c).Reads first c₁ ∧
          (moreItems close c₁).Reads (others, s) r'
  | .param, c, p, r => r.Clear (· ≠ .punct .colon) → (param c).Reads p r
  | .params, c, ps, r => ∀ s r', r.Passes (.punct .closeParen) s r' → (params c).Reads ps r'
  | .someParams, c, ps, r =>
      ∀ s r', r.Passes (.punct .closeParen) s r' → (moreParams c).Reads ps r'
  | .statement, c, t, r => Stops 9 r → (statement c).Reads t r
  | .statements, c, ts, r =>
      (∀ s r', r.Passes (.punct .closeBrace) s r' → (blockRest c).Reads (ts, s) r') ∧
      (r.items = [] → (program c).Reads ts r)
  | .block, c, body, r => (block c).Reads (body, r.last) r
  | .branches, c, rest, r => Stops 9 r → (branches c.last c).Reads (rest, r.last) r

theorem grip_close {close : Punct} (h : close ∈ [Punct.closeParen, .closeBracket]) :
    grip (.punct close) = 10 := by
  cases close <;> first | rfl | exact absurd h (by decide)

section ReadAs

variable {c c₁ c₂ c₃ c₄ r : Cursor} {s s₁ : Span} {l : Level} {op : BinaryOp}
  {e left right base exponent array position : Expr} {es : List Expr}

/-- A level that the loop can go on from is read in full when the loop has nothing to do. -/
theorem readAs_level (hstep : Stops (l.rank + 1) r → ∀ x r', (chain l e r).Reads x r' →
    (binary l c).Reads x r') : ReadAs (.level l) c e r := by
  refine ⟨fun _ ↦ hstep, fun hr ↦ ?_⟩
  exact hstep (hr.mono (Nat.le_succ _)) e r (reads_chain_done hr)

theorem readAs_single (h : ReadAs (.operand l) c e r) : ReadAs (.level l) c e r := by
  refine readAs_level fun hr x r' hchain ↦ ?_
  rw [binary]
  exact (h hr).andThen hchain

theorem readAs_operation (hlevel : l ≠ .comparison) (hleft : ReadAs (.level l) c left c₁)
    (hop : op ∈ l.operators) (hsign : c₁.Passes (.symbol op.symbol) s c₂)
    (hright : ReadAs (.operand l) c₂ right r) :
    ReadAs (.level l) c (.binary op left right (left.span.merge right.span)) r := by
  refine readAs_level fun hr x r' hchain ↦ ?_
  have hrest := reads_chain_step hlevel hop hsign (hright hr) hchain
  exact hleft.1 hlevel (stops_of_operator hsign hop) x r' hrest

theorem readAs_comparison (hleft : ReadAs (.operand .comparison) c left c₁)
    (hop : op ∈ Level.comparison.operators) (hsign : c₁.Passes (.symbol op.symbol) s c₂)
    (hright : ReadAs (.operand .comparison) c₂ right r) :
    ReadAs (.level .comparison) c (.binary op left right (left.span.merge right.span)) r := by
  refine ⟨fun hlevel ↦ absurd rfl hlevel, fun hr ↦ ?_⟩
  have hleft' := hleft (stops_of_operator hsign hop)
  exact reads_comparison hleft' hop hsign (hright (hr.mono (Nat.le_succ _)))

theorem readAs_tighter {l' : Level} (hl : l.tighter? = some l') (h : ReadAs (.level l') c e r) :
    ReadAs (.operand l) c e r := by
  intro hr
  rw [rank_of_tighter? hl] at hr
  exact reads_operand hl (h.2 hr)

theorem readAs_tightest (h : ReadAs .unary c e r) : ReadAs (.operand .product) c e r := by
  intro hr
  rw [operand]
  exact h hr

/-- Behind a primary expression with all its indices the loop over indices ends. -/
theorem exists_primary_of_readAs (h : ReadAs .suffixed c e r) (hr : Stops 1 r) :
    ∃ first c', (primary c).Reads first c' ∧ (suffixes first c').Reads e r :=
  h (hr.mono (Nat.zero_le 1)) e r (reads_suffixes_done hr)

theorem readAs_power (hahead : c.Ahead (Phrase.suffixed.startsWith · = true))
    (hbase : ReadAs .suffixed c base c₁) (hcaret : c₁.Passes (.symbol .caret) s c₂)
    (hexponent : ReadAs .unary c₂ exponent r) :
    ReadAs .unary c (.binary .pow base exponent (base.span.merge exponent.span)) r := by
  intro hr
  obtain ⟨first, c', hfirst, hsuffixes⟩ :=
    exists_primary_of_readAs hbase (stops_of_passes hcaret (by decide))
  exact reads_of_power hahead (reads_power hfirst hsuffixes hcaret (hexponent hr))

theorem readAs_base (hahead : c.Ahead (Phrase.suffixed.startsWith · = true))
    (hbase : ReadAs .suffixed c base r) : ReadAs .unary c base r := by
  intro hr
  obtain ⟨first, c', hfirst, hsuffixes⟩ := exists_primary_of_readAs hbase (hr.mono (by decide))
  exact reads_of_power hahead (reads_base hfirst hsuffixes hr)

/-- A primary expression is where the loop over indices begins. -/
theorem readAs_primary (h : Stops 0 r → (primary c).Reads e r) : ReadAs .suffixed c e r :=
  fun hr _ _ hsuffixes ↦ ⟨e, r, h hr, hsuffixes⟩

theorem readAs_index (harray : ReadAs .suffixed c array c₁)
    (hopen : c₁.Passes (.punct .openBracket) s c₂) (hposition : ReadAs .expression c₂ position c₃)
    (hclose : c₃.Passes (.punct .closeBracket) s₁ r) :
    ReadAs .suffixed c (.index array position (array.span.merge s₁)) r := by
  intro _ x r' hsuffixes
  have hposition' := hposition (stops_of_passes hclose (by decide))
  have hrest := reads_suffixes_step hopen hposition' hclose hsuffixes
  exact harray (stops_of_passes hopen (by decide)) x r' hrest

theorem readAs_args (hahead : c.Ahead (Phrase.someArgs.startsWith · = true))
    (h : ReadAs .someArgs c es r) : ReadAs .args c es r := by
  intro close hmem s r' hclose
  obtain ⟨first, others, c', rfl, hfirst, hothers⟩ := h close hmem s r' hclose
  refine reads_items hahead ?_ hfirst hothers
  cases close <;> first | rfl | exact absurd hmem (by decide)

theorem readAs_lastArg (he : ReadAs .expression c e r) : ReadAs .someArgs c [e] r := by
  intro close hmem s r' hclose
  have hstops : Stops 8 r := by
    refine stops_of_passes hclose ?_
    rw [grip_close hmem]
    decide
  refine ⟨e, [], r, rfl, he hstops, reads_moreItems_done hclose ?_⟩
  rintro rfl
  exact absurd hmem (by decide)

theorem readAs_moreArgs (he : ReadAs .expression c e c₁) (hcomma : c₁.Passes (.punct .comma) s c₂)
    (hes : ReadAs .someArgs c₂ es r) : ReadAs .someArgs c (e :: es) r := by
  intro close hmem s r' hclose
  obtain ⟨first, others, c', rfl, hfirst, hothers⟩ := hes close hmem s r' hclose
  have he' := he (stops_of_passes hcomma (by decide))
  exact ⟨e, first :: others, c₁, rfl, he', reads_moreItems_step hcomma hfirst hothers⟩

theorem readAs_statements {first : Stmt} {others : List Stmt}
    (hahead : c.Ahead (startsStatement · = true)) (hfirst : ReadAs .statement c first c₁)
    (hderives : Derives .statements c₁ others r) (hothers : ReadAs .statements c₁ others r) :
    ReadAs .statements c (first :: others) r := by
  constructor
  · intro s r' hclose
    have hstops := stops_of_statements hderives (stops_of_passes hclose (by decide))
    exact reads_blockRest_step hahead (hfirst hstops) (hothers.1 s r' hclose)
  · intro hnil
    have hstops := stops_of_statements hderives (stops_of_nil hnil)
    exact reads_program_step hahead (hfirst hstops) (hothers.2 hnil)

theorem readAs_block {body : List Stmt} (hopen : c.Passes (.punct .openBrace) s c₁)
    (hbody : ReadAs .statements c₁ body c₂) (hclose : c₂.Passes (.punct .closeBrace) s₁ r) :
    ReadAs .block c body r := by
  have hlast : r.last = s₁ := hclose.2.1
  subst hlast
  exact reads_block hopen (hbody.1 _ _ hclose)

end ReadAs

theorem Derives.readAs {p : Phrase} {c r : Cursor} {t : p.Tree} (h : Derives p c t r) :
    ReadAs p c t r := by
  induction h with
  | plainType hword htype => exact reads_plainType hword htype
  | arrayType hword hopen _ hclose hspan ih =>
      subst hspan
      exact reads_arrayType hword hopen ih hclose
  | plain _ ih => exact fun hr ↦ reads_plain (ih.2 (hr.mono (by decide))) hr
  | ternary _ hquestion _ hcolon _ hspan ihtest ihyes ihno =>
      subst hspan
      exact fun hr ↦ reads_ternary (ihtest.2 (stops_of_passes hquestion (by decide))) hquestion
        (ihyes.2 (stops_of_passes hcolon (by decide))) hcolon (ihno hr)
  | single _ ih => exact readAs_single ih
  | operation hlevel _ hop hsign _ hspan ihleft ihright =>
      subst hspan
      exact readAs_operation hlevel ihleft hop hsign ihright
  | comparison _ hop hsign _ hspan ihleft ihright =>
      subst hspan
      exact readAs_comparison ihleft hop hsign ihright
  | tighter hl _ ih => exact readAs_tighter hl ih
  | tightest _ ih => exact readAs_tightest ih
  | unary hsign _ hspan ih =>
      subst hspan
      exact fun hr ↦ reads_unary hsign (ih hr)
  | power hbase hcaret _ hspan ihbase ihexponent =>
      subst hspan
      exact readAs_power (hbase.ahead rfl) ihbase hcaret ihexponent
  | base hbase ih => exact readAs_base (hbase.ahead rfl) ih
  | int h | double h | string h | yes h | no h => exact readAs_primary fun _ ↦ reads_literal h rfl
  | ident h => exact readAs_primary fun hr ↦ reads_ident h hr
  | call hcallee hopen _ hclose hspan ih =>
      subst hspan
      exact readAs_primary fun _ ↦ reads_call hcallee hopen (ih _ (by decide) _ _ hclose)
  | paren hopen _ hclose ih =>
      have he := ih (stops_of_passes hclose (by decide))
      exact readAs_primary fun _ ↦ reads_paren hopen he hclose
  | array hopen _ hclose hspan ih =>
      subst hspan
      exact readAs_primary fun _ ↦ reads_array hopen (ih _ (by decide) _ _ hclose)
  | index _ hopen _ hclose hspan iharray ihposition =>
      subst hspan
      exact readAs_index iharray hopen ihposition hclose
  | noArgs => exact fun close _ s r' hclose ↦ reads_noItems hclose
  | args h ih => exact readAs_args (h.ahead rfl) ih
  | lastArg _ ih => exact readAs_lastArg ih
  | moreArgs _ hcomma _ ihe ihes => exact readAs_moreArgs ihe hcomma ihes
  | untyped hname => exact fun hr ↦ reads_untyped hname hr
  | typed hname hcolon _ ih => exact fun _ ↦ reads_typed hname hcolon ih
  | noParams => exact fun s r' hclose ↦ reads_noParams hclose
  | params h ih => exact fun s r' hclose ↦ reads_params (h.ahead rfl) (ih s r' hclose)
  | lastParam _ ih =>
      exact fun s r' hclose ↦ reads_lastParam (ih (hclose.clear (by decide))) hclose
  | moreParams _ hcomma _ ihp ihps =>
      exact fun s r' hclose ↦
        reads_moreParams (ihp (hcomma.clear (by decide))) hcomma (ihps s r' hclose)
  | declare htype hname hassign _ ihtype ihinit =>
      exact fun hr ↦
        reads_declare (htype.ahead rfl) ihtype hname hassign (ihinit (hr.mono (by decide)))
  | function hword hname hopen _ hclose harrow _ _ ihparams ihresult ihbody =>
      exact fun _ ↦
        reads_function hword hname hopen (ihparams _ _ hclose) harrow ihresult ihbody
  | assign htarget hsign _ ih =>
      exact fun hr ↦ reads_assign htarget hsign (ih (hr.mono (by decide)))
  | print hword hopen _ hclose hspan ih =>
      subst hspan
      exact fun _ ↦ reads_print hword hopen (ih (stops_of_passes hclose (by decide))) hclose
  | cond hword _ hbody _ hspan ihtest ihbody ihrest =>
      subst hspan
      exact fun hr ↦
        reads_cond hword (ihtest (stops_of_block hbody (by decide))) ihbody (ihrest hr)
  | loop hword _ hbody hspan ihtest ihbody =>
      subst hspan
      exact fun _ ↦ reads_loop hword (ihtest (stops_of_block hbody (by decide))) ihbody
  | each hword hiterator hwithin _ hbody hspan ihcollection ihbody =>
      subst hspan
      exact fun _ ↦ reads_each hword hiterator hwithin
        (ihcollection (stops_of_block hbody (by decide))) ihbody
  | ret hword hahead _ hspan ih =>
      subst hspan
      exact fun hr ↦ reads_ret hword hahead (ih (hr.mono (by decide)))
  | stop hword hahead => exact fun hr ↦ reads_stop hword hahead hr
  | callStatement hcallee hopen _ hclose ih =>
      exact fun _ ↦ reads_callStatement hcallee hopen (ih _ (by decide) _ _ hclose)
  | noStatements => exact ⟨fun s r' hclose ↦ reads_blockRest_done hclose, reads_program_done⟩
  | statements hfirst hothers ihfirst ihothers =>
      exact readAs_statements (hfirst.ahead rfl) ihfirst hothers ihothers
  | block hopen _ hclose ih => exact readAs_block hopen ih hclose
  | finish => exact fun hr ↦ reads_finish hr
  | otherwise hword hbody ih => exact fun _ ↦ reads_otherwise hword (hbody.ahead rfl) ih
  | also hword hword' _ hbody _ ihtest ihbody ihrest =>
      exact fun hr ↦
        reads_also hword hword' (ihtest (stops_of_block hbody (by decide))) ihbody (ihrest hr)

theorem reads_of_isProgram {c : Cursor} {statements : List Stmt} (h : IsProgram c statements) :
    ∃ r, (program c).Reads statements r := by
  obtain ⟨r, hderives, hnil⟩ := h
  exact ⟨r, hderives.readAs.2 hnil⟩

/-- The parser accepts the programs of the grammar and nothing else, with the tree the grammar gives
them. -/
theorem parse_eq_ok_iff {source : String} {statements : List Stmt} :
    parse source = .ok statements ↔ IsProgram (Cursor.ofSource source) statements := by
  constructor
  · exact isProgram_of_parse
  · intro h
    obtain ⟨r, bound, hreads⟩ := reads_of_isProgram h
    rw [parse, hreads]
    rfl

theorem IsProgram.eq {c : Cursor} {ts ts' : List Stmt} (h : IsProgram c ts)
    (h' : IsProgram c ts') : ts = ts' := by
  obtain ⟨r, hreads⟩ := reads_of_isProgram h
  obtain ⟨r', hreads'⟩ := reads_of_isProgram h'
  exact (hreads.eq hreads').1

end Surface
end Barista
