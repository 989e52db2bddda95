import Barista.Proofs.Surface.Transport

/-!
# The language of the parser

The parser accepts the programs of the grammar and gives each of them its only tree.  How operators
group is read off the grammar: a row of operands and operators is one expression with one tree.
-/

namespace Barista
namespace Surface

open Cursor (reads_ifNext_absent only_eq_none_iff)
open Outcome

/-! ## Rows of parts -/

inductive Part
  | phrase (p : Phrase) (t : p.Tree)
  | token (token : Token) (span : Span)

/-- The parts stand one behind the other between two cursors. -/
def Row : Cursor → List Part → Cursor → Prop
  | c, [], r => r = c
  | c, .phrase p t :: parts, r => ∃ c₁, Derives p c t c₁ ∧ Row c₁ parts r
  | c, .token token span :: parts, r => ∃ c₁, c.Passes token span c₁ ∧ Row c₁ parts r

def operate (op : BinaryOp) (left right : Expr) : Expr :=
  .binary op left right (left.span.merge right.span)

def signed (op : UnaryOp) (span : Span) (e : Expr) : Expr :=
  .unary op e (span.merge e.span)

def choose (test yes no : Expr) : Expr :=
  .ternary test yes no (test.span.merge no.span)

section Grouping

variable {l l' : Level} {op op' : BinaryOp} {sign : UnaryOp} {c r : Cursor} {x y z e e' : Expr}
  {s s' : Span}

/-! ## One tree for each phrase -/

theorem Derives.level_iff (h : Derives (.level l) c e r) (hr : Stops (l.rank + 2) r) :
    Derives (.level l) c e' r ↔ e' = e := by
  constructor
  · intro h'
    exact ((h'.readAs.2 hr).eq (h.readAs.2 hr)).1
  · rintro rfl
    exact h

theorem Derives.unary_iff (h : Derives .unary c e r) (hr : Stops 2 r) :
    Derives .unary c e' r ↔ e' = e := by
  constructor
  · intro h'
    exact ((h'.readAs hr).eq (h.readAs hr)).1
  · rintro rfl
    exact h

theorem Derives.expression_iff (h : Derives .expression c e r) (hr : Stops 8 r) :
    Derives .expression c e' r ↔ e' = e := by
  constructor
  · intro h'
    exact ((h'.readAs hr).eq (h.readAs hr)).1
  · rintro rfl
    exact h

/-- Two operands with an operator of the level between them. -/
theorem Derives.operate {c₁ c₂ : Cursor} (hx : Derives (.operand l) c x c₁)
    (hop : op ∈ l.operators) (hsign : c₁.Passes (.symbol op.symbol) s c₂)
    (hy : Derives (.operand l) c₂ y r) : Derives (.level l) c (operate op x y) r := by
  by_cases hl : l = .comparison
  · subst hl
    exact .comparison hx hop hsign hy rfl
  · exact .operation hl (.single hx) hop hsign hy rfl

/-- Everything that binds tighter than a level can be its operand. -/
theorem Derives.operand_of_level (hl : l'.rank < l.rank) (h : Derives (.level l') c e r) :
    Derives (.operand l) c e r := by
  have hstep : ∀ {l l' : Level} {e : Expr}, l.tighter? = some l' → Derives (.level l') c e r →
      Derives (.level l) c e r := fun htighter h ↦ .single (.tighter htighter h)
  cases l <;> cases l' <;> first
    | exact absurd hl (by decide)
    | exact .tighter rfl h
    | exact .tighter rfl (hstep rfl h)
    | exact .tighter rfl (hstep rfl (hstep rfl h))
    | exact .tighter rfl (hstep rfl (hstep rfl (hstep rfl h)))

/-! ## Grouping -/

theorem groups_left (hl : l ≠ .comparison) (hop : op ∈ l.operators) (hop' : op' ∈ l.operators)
    (h : Row c [.phrase (.operand l) x, .token (.symbol op.symbol) s, .phrase (.operand l) y,
      .token (.symbol op'.symbol) s', .phrase (.operand l) z] r)
    (hr : Stops (l.rank + 2) r) :
    Derives (.level l) c e r ↔ e = operate op' (operate op x y) z := by
  obtain ⟨c₁, hx, c₂, hsign, c₃, hy, c₄, hsign', c₅, hz, rfl⟩ := h
  have htree : Derives (.level l) c (operate op' (operate op x y) z) r :=
    .operation hl (hx.operate hop hsign hy) hop' hsign' hz rfl
  exact htree.level_iff hr

theorem groups_right_of_tighter (hl : l'.rank < l.rank) (hop : op ∈ l.operators)
    (hop' : op' ∈ l'.operators)
    (h : Row c [.phrase (.operand l) x, .token (.symbol op.symbol) s, .phrase (.operand l') y,
      .token (.symbol op'.symbol) s', .phrase (.operand l') z] r)
    (hr : Stops (l.rank + 2) r) :
    Derives (.level l) c e r ↔ e = operate op x (operate op' y z) := by
  obtain ⟨c₁, hx, c₂, hsign, c₃, hy, c₄, hsign', c₅, hz, rfl⟩ := h
  have htree := hx.operate hop hsign ((hy.operate hop' hsign' hz).operand_of_level hl)
  exact htree.level_iff hr

theorem groups_left_of_tighter (hl : l'.rank < l.rank) (hop : op ∈ l.operators)
    (hop' : op' ∈ l'.operators)
    (h : Row c [.phrase (.operand l') x, .token (.symbol op'.symbol) s, .phrase (.operand l') y,
      .token (.symbol op.symbol) s', .phrase (.operand l) z] r)
    (hr : Stops (l.rank + 2) r) :
    Derives (.level l) c e r ↔ e = operate op (operate op' x y) z := by
  obtain ⟨c₁, hx, c₂, hsign, c₃, hy, c₄, hsign', c₅, hz, rfl⟩ := h
  have htree := ((hx.operate hop' hsign hy).operand_of_level hl).operate hop hsign' hz
  exact htree.level_iff hr

theorem power_groups_right
    (h : Row c [.phrase .suffixed x, .token (.symbol .caret) s, .phrase .suffixed y,
      .token (.symbol .caret) s', .phrase .unary z] r) (hr : Stops 2 r) :
    Derives .unary c e r ↔ e = operate .pow x (operate .pow y z) := by
  obtain ⟨c₁, hx, c₂, hcaret, c₃, hy, c₄, hcaret', c₅, hz, rfl⟩ := h
  have htree : Derives .unary c (operate .pow x (operate .pow y z)) r :=
    .power hx hcaret (.power hy hcaret' hz rfl) rfl
  exact htree.unary_iff hr

theorem sign_of_power
    (h : Row c [.token (.symbol sign.symbol) s, .phrase .suffixed x, .token (.symbol .caret) s',
      .phrase .unary y] r) (hr : Stops 2 r) :
    Derives .unary c e r ↔ e = signed sign s (operate .pow x y) := by
  obtain ⟨c₁, hsign, c₂, hx, c₃, hcaret, c₄, hy, rfl⟩ := h
  have htree : Derives .unary c (signed sign s (operate .pow x y)) r :=
    .unary hsign (.power hx hcaret hy rfl) rfl
  exact htree.unary_iff hr

theorem power_of_sign
    (h : Row c [.phrase .suffixed x, .token (.symbol .caret) s, .token (.symbol sign.symbol) s',
      .phrase .unary y] r) (hr : Stops 2 r) :
    Derives .unary c e r ↔ e = operate .pow x (signed sign s' y) := by
  obtain ⟨c₁, hx, c₂, hcaret, c₃, hsign, c₄, hy, rfl⟩ := h
  have htree : Derives .unary c (operate .pow x (signed sign s' y)) r :=
    .power hx hcaret (.unary hsign hy rfl) rfl
  exact htree.unary_iff hr

theorem choice_groups_right {test yes test' yes' no : Expr} {s₁ s₂ s₃ s₄ : Span}
    (h : Row c [.phrase (.level .or) test, .token (.punct .question) s₁, .phrase (.level .or) yes,
      .token (.punct .colon) s₂, .phrase (.level .or) test', .token (.punct .question) s₃,
      .phrase (.level .or) yes', .token (.punct .colon) s₄, .phrase .expression no] r)
    (hr : Stops 8 r) :
    Derives .expression c e r ↔ e = choose test yes (choose test' yes' no) := by
  obtain ⟨c₁, htest, c₂, hquestion, c₃, hyes, c₄, hcolon, c₅, htest', c₆, hquestion', c₇, hyes',
    c₈, hcolon', c₉, hno, rfl⟩ := h
  have htree : Derives .expression c (choose test yes (choose test' yes' no)) r :=
    .ternary htest hquestion hyes hcolon (.ternary htest' hquestion' hyes' hcolon' hno rfl) rfl
  exact htree.expression_iff hr

/-- An expression has at most one comparison outside of brackets. -/
theorem not_derives_two_comparisons (hop : op ∈ Level.comparison.operators)
    (hop' : op' ∈ Level.comparison.operators)
    (h : Row c [.phrase (.operand .comparison) x, .token (.symbol op.symbol) s,
      .phrase (.operand .comparison) y, .token (.symbol op'.symbol) s',
      .phrase (.operand .comparison) z] r)
    (hr : Stops 8 r) : ¬ Derives .expression c e r := by
  obtain ⟨c₁, hx, c₂, hsign, c₃, hy, c₄, hsign', c₅, hz, rfl⟩ := h
  intro he
  have hstops : Stops 4 c₁ := stops_of_operator hsign hop
  have hstops' : Stops 4 c₃ := stops_of_operator hsign' hop'
  -- Neither of the looser levels goes on behind the first comparison, so reading ends there.
  have hlooser : ∀ l : Level, 3 < l.rank → ∀ e, (chain l e c₃).Reads e c₃ := by
    intro l hl e
    rw [chain]
    refine reads_ifNext_absent (hsign'.clear ?_) (reads_done.2 ⟨rfl, rfl⟩)
    rw [Option.eq_none_iff_forall_not_mem]
    intro op₁ hop₁
    obtain ⟨hmem, hsymbol⟩ := Level.operator?_eq_some_iff.1 hop₁
    have hgrip : grip (.symbol op'.symbol) = 5 := grip_operator hop'
    rw [hsymbol, grip_operator hmem] at hgrip
    omega
  have hand : (binary .and c).Reads (operate op x y) c₃ := by
    rw [binary, operand]
    exact (reads_comparison (hx.readAs hstops) hop hsign (hy.readAs hstops')).andThen
      (hlooser .and (by decide) _)
  have hor : (binary .or c).Reads (operate op x y) c₃ := by
    rw [binary, operand]
    exact hand.andThen (hlooser .or (by decide) _)
  have hexpression : (expression c).Reads (operate op x y) c₃ := by
    rw [expression]
    refine hor.andThen (reads_ifNext_absent (hsign'.clear (only_eq_none_iff.2 nofun)) ?_)
    exact reads_done.2 ⟨rfl, rfl⟩
  obtain ⟨-, rfl⟩ := (he.readAs hr).eq hexpression
  have hlt : r.length < c₄.length := (hz.readAs (hr.mono (by decide))).length_lt
  have hlt' := hsign'.length_lt
  omega

end Grouping

/-! ## What an expression begins with -/

/-- A stream of tokens without line breaks. -/
def streamOf (tokens : List Token) : Cursor :=
  ⟨tokens.map fun token ↦ .lexeme ⟨token, ⟨0, 0⟩, false⟩, ⟨0, 0⟩, 0⟩

theorem passes_streamOf (token : Token) (tokens : List Token) :
    (streamOf (token :: tokens)).Passes token ⟨0, 0⟩ (streamOf tokens) :=
  ⟨⟨false, rfl⟩, rfl, rfl⟩

theorem Derives.expression_of_unary {c r : Cursor} {e : Expr} (h : Derives .unary c e r) :
    Derives .expression c e r := by
  have hproduct : Derives (.level .product) c e r := .single (.tightest h)
  exact .plain (.single (hproduct.operand_of_level (by decide)))

/-- Some expression begins with the token. -/
def Begins (token : Token) : Prop :=
  ∃ c s c₁ e r, c.Passes token s c₁ ∧ Derives .expression c e r

theorem begins_of_unary {token : Token} {tokens : List Token} {e : Expr} {r : Cursor}
    (h : Derives .unary (streamOf (token :: tokens)) e r) : Begins token :=
  ⟨_, _, _, e, r, passes_streamOf token tokens, h.expression_of_unary⟩

theorem begins_iff (token : Token) : Begins token ↔ token.startsExpression = true := by
  have hyes : ∀ tokens, Derives .suffixed (streamOf (.keyword .yes :: tokens)) (.bool true ⟨0, 0⟩)
      (streamOf tokens) := fun tokens ↦ .yes (passes_streamOf _ tokens)
  constructor
  · rintro ⟨c, s, c₁, e, r, hpasses, he⟩
    exact (he.ahead rfl).of_passes hpasses
  · intro h
    cases token with
    | int value => exact begins_of_unary (.base (.int (passes_streamOf _ [])))
    | double value => exact begins_of_unary (.base (.double (passes_streamOf _ [])))
    | string value => exact begins_of_unary (.base (.string (passes_streamOf _ [])))
    | ident name => exact begins_of_unary (.base (.ident (passes_streamOf _ [])))
    | keyword word =>
        cases word with
        | yes => exact begins_of_unary (.base (hyes []))
        | no => exact begins_of_unary (.base (.no (passes_streamOf _ [])))
        | _ => cases h
    | symbol sign =>
        have hunary : ∀ op : UnaryOp, Begins (.symbol op.symbol) := fun op ↦
          begins_of_unary (.unary (passes_streamOf _ [.keyword .yes]) (.base (hyes [])) rfl)
        cases sign with
        | minus => exact hunary .neg
        | bang => exact hunary .not
        | _ => cases h
    | punct mark =>
        cases mark with
        | openParen =>
            have hinner := Derives.expression_of_unary (.base (hyes [.punct .closeParen]))
            exact begins_of_unary
              (.base (.paren (passes_streamOf _ _) hinner (passes_streamOf _ [])))
        | openBracket =>
            exact begins_of_unary (.base (.array (passes_streamOf _ [.punct .closeBracket]) .noArgs
              (passes_streamOf _ []) rfl))
        | _ => cases h

/-! ## The parser and the grammar -/

/-- How operators group: every row of operands and operators is one phrase with one tree, or none at
all. -/
structure Grouping : Prop where
  left {l : Level} {op op' : BinaryOp} {c r : Cursor} {x y z e : Expr} {s s' : Span} :
    l ≠ .comparison → op ∈ l.operators → op' ∈ l.operators →
    Row c [.phrase (.operand l) x, .token (.symbol op.symbol) s, .phrase (.operand l) y,
      .token (.symbol op'.symbol) s', .phrase (.operand l) z] r →
    Stops (l.rank + 2) r →
    (Derives (.level l) c e r ↔ e = operate op' (operate op x y) z)
  tighterRight {l l' : Level} {op op' : BinaryOp} {c r : Cursor} {x y z e : Expr} {s s' : Span} :
    l'.rank < l.rank → op ∈ l.operators → op' ∈ l'.operators →
    Row c [.phrase (.operand l) x, .token (.symbol op.symbol) s, .phrase (.operand l') y,
      .token (.symbol op'.symbol) s', .phrase (.operand l') z] r →
    Stops (l.rank + 2) r →
    (Derives (.level l) c e r ↔ e = operate op x (operate op' y z))
  tighterLeft {l l' : Level} {op op' : BinaryOp} {c r : Cursor} {x y z e : Expr} {s s' : Span} :
    l'.rank < l.rank → op ∈ l.operators → op' ∈ l'.operators →
    Row c [.phrase (.operand l') x, .token (.symbol op'.symbol) s, .phrase (.operand l') y,
      .token (.symbol op.symbol) s', .phrase (.operand l) z] r →
    Stops (l.rank + 2) r →
    (Derives (.level l) c e r ↔ e = operate op (operate op' x y) z)
  comparison {op op' : BinaryOp} {c r : Cursor} {x y z e : Expr} {s s' : Span} :
    op ∈ Level.comparison.operators → op' ∈ Level.comparison.operators →
    Row c [.phrase (.operand .comparison) x, .token (.symbol op.symbol) s,
      .phrase (.operand .comparison) y, .token (.symbol op'.symbol) s',
      .phrase (.operand .comparison) z] r →
    Stops 8 r → ¬ Derives .expression c e r
  power {c r : Cursor} {x y z e : Expr} {s s' : Span} :
    Row c [.phrase .suffixed x, .token (.symbol .caret) s, .phrase .suffixed y,
      .token (.symbol .caret) s', .phrase .unary z] r →
    Stops 2 r → (Derives .unary c e r ↔ e = operate .pow x (operate .pow y z))
  sign {sign : UnaryOp} {c r : Cursor} {x y e : Expr} {s s' : Span} :
    Row c [.token (.symbol sign.symbol) s, .phrase .suffixed x, .token (.symbol .caret) s',
      .phrase .unary y] r →
    Stops 2 r → (Derives .unary c e r ↔ e = signed sign s (operate .pow x y))
  exponent {sign : UnaryOp} {c r : Cursor} {x y e : Expr} {s s' : Span} :
    Row c [.phrase .suffixed x, .token (.symbol .caret) s, .token (.symbol sign.symbol) s',
      .phrase .unary y] r →
    Stops 2 r → (Derives .unary c e r ↔ e = operate .pow x (signed sign s' y))
  choice {c r : Cursor} {test yes test' yes' no e : Expr} {s₁ s₂ s₃ s₄ : Span} :
    Row c [.phrase (.level .or) test, .token (.punct .question) s₁, .phrase (.level .or) yes,
      .token (.punct .colon) s₂, .phrase (.level .or) test', .token (.punct .question) s₃,
      .phrase (.level .or) yes', .token (.punct .colon) s₄, .phrase .expression no] r →
    Stops 8 r →
    (Derives .expression c e r ↔ e = choose test yes (choose test' yes' no))

theorem grouping : Grouping where
  left := groups_left
  tighterRight := groups_right_of_tighter
  tighterLeft := groups_left_of_tighter
  comparison := not_derives_two_comparisons
  power := power_groups_right
  sign := sign_of_power
  exponent := power_of_sign
  choice := choice_groups_right

/-- The parser accepts exactly the programs of the grammar, with spans or without, and a program has
one tree only.  Whether a `return` has a value is decided by the next token and the line breaks of
the text in front of it. -/
theorem parse_accepts_grammar (source : String) :
    (∀ ts, parse source = .ok ts ↔ IsProgram (Cursor.ofSource source) ts) ∧
    (∀ u, (∃ ts, parse source = .ok ts ∧ bare ts = u) ↔ IsProgram (Cursor.ofSource source).bare u) ∧
    (∀ u u', IsProgram (Cursor.ofSource source).bare u →
      IsProgram (Cursor.ofSource source).bare u' → u = u') ∧
    (∀ token, Begins token ↔ token.startsExpression = true) ∧
    (∀ items a b others, Item.ofSource source = items ++ a :: b :: others →
      Item.Adjoins source.toList a b) ∧
    Grouping := by
  refine ⟨fun ts ↦ parse_eq_ok_iff, fun u ↦ ?_, fun u u' ↦ IsProgram.eq, begins_iff,
    fun items a b others ↦ Item.adjoins_of_ofSource, grouping⟩
  rw [isProgram_bare_iff]
  exact exists_congr fun ts ↦ and_congr_left' parse_eq_ok_iff

end Surface
end Barista
