import Barista.Proofs.Surface.Reading

/-!
# The grammar

The phrases of the language and the trees they stand for, as rules over cursors: a phrase leads from
the cursor in front of it to the cursor behind it.  Each rule is a production of the surface grammar
and passes its tokens one by one.  Only the two forms of `return` look ahead.
-/

namespace Barista
namespace Surface

inductive Phrase
  | type
  | expression
  /-- An operation of the level or anything that binds tighter. -/
  | level (l : Level)
  /-- What stands between the operators of the level. -/
  | operand (l : Level)
  | unary
  /-- A primary expression with any number of indices. -/
  | suffixed
  | args
  | someArgs
  | param
  | params
  | someParams
  | statement
  | statements
  | block
  /-- What follows the first branch of a conditional. -/
  | branches

abbrev Phrase.Tree : Phrase → Type
  | type => TypeName
  | expression | level _ | operand _ | unary | suffixed => Expr
  | args | someArgs => List Expr
  | param => Param
  | params | someParams => List Param
  | statement => Stmt
  | statements | block => List Stmt
  | branches => Chain

namespace Level

def operators : Level → List BinaryOp
  | or => [.or]
  | and => [.and]
  | comparison => [.lt, .le, .eq, .ne, .ge, .gt]
  | sum => [.add, .sub]
  | product => [.mul, .div]

def tighter? : Level → Option Level
  | or => some and
  | and => some comparison
  | comparison => some sum
  | sum => some product
  | product => none

end Level

/-- The types of one word. -/
def plainType? : Keyword → Option Ty
  | .int => some .int
  | .double => some .double
  | .bool => some .bool
  | .string => some .string
  | .void => some .void
  | _ => none

/-- The next token can begin an expression, and no line break lies in front of it. -/
def valueAhead (c : Cursor) : Prop :=
  ∃ l items, c.items = .lexeme l :: items ∧ l.token.startsExpression = true ∧ l.onNewLine = false

inductive Derives : (p : Phrase) → Cursor → p.Tree → Cursor → Prop
  -- Types
  | plainType {c r : Cursor} {word : Keyword} {type : TypeName}
      (hword : c.Passes (.keyword word) type.span r) (htype : plainType? word = some type.type) :
      Derives .type c type r
  | arrayType {c c₁ c₂ c₃ r : Cursor} {s s₁ s₂ span : Span} {element : TypeName}
      (hword : c.Passes (.keyword .array) s c₁) (hopen : c₁.Passes (.punct .openBracket) s₁ c₂)
      (helement : Derives .type c₂ element c₃) (hclose : c₃.Passes (.punct .closeBracket) s₂ r)
      (hspan : span = s.merge s₂) :
      Derives .type c ⟨.array element.type, span⟩ r
  -- Expressions
  | plain {c r : Cursor} {e : Expr} (h : Derives (.level .or) c e r) : Derives .expression c e r
  | ternary {c c₁ c₂ c₃ c₄ r : Cursor} {s s₁ span : Span} {test yes no : Expr}
      (htest : Derives (.level .or) c test c₁) (hquestion : c₁.Passes (.punct .question) s c₂)
      (hyes : Derives (.level .or) c₂ yes c₃) (hcolon : c₃.Passes (.punct .colon) s₁ c₄)
      (hno : Derives .expression c₄ no r) (hspan : span = test.span.merge no.span) :
      Derives .expression c (.ternary test yes no span) r
  | single {l : Level} {c r : Cursor} {e : Expr} (h : Derives (.operand l) c e r) :
      Derives (.level l) c e r
  | operation {l : Level} {c c₁ c₂ r : Cursor} {s span : Span} {op : BinaryOp} {left right : Expr}
      (hlevel : l ≠ .comparison) (hleft : Derives (.level l) c left c₁) (hop : op ∈ l.operators)
      (hsign : c₁.Passes (.symbol op.symbol) s c₂) (hright : Derives (.operand l) c₂ right r)
      (hspan : span = left.span.merge right.span) :
      Derives (.level l) c (.binary op left right span) r
  | comparison {c c₁ c₂ r : Cursor} {s span : Span} {op : BinaryOp} {left right : Expr}
      (hleft : Derives (.operand .comparison) c left c₁) (hop : op ∈ Level.comparison.operators)
      (hsign : c₁.Passes (.symbol op.symbol) s c₂)
      (hright : Derives (.operand .comparison) c₂ right r)
      (hspan : span = left.span.merge right.span) :
      Derives (.level .comparison) c (.binary op left right span) r
  | tighter {l l' : Level} {c r : Cursor} {e : Expr} (hl : l.tighter? = some l')
      (h : Derives (.level l') c e r) :
      Derives (.operand l) c e r
  | tightest {c r : Cursor} {e : Expr} (h : Derives .unary c e r) :
      Derives (.operand .product) c e r
  | unary {c c₁ r : Cursor} {s span : Span} {op : UnaryOp} {e : Expr}
      (hsign : c.Passes (.symbol op.symbol) s c₁) (he : Derives .unary c₁ e r)
      (hspan : span = s.merge e.span) :
      Derives .unary c (.unary op e span) r
  | power {c c₁ c₂ r : Cursor} {s span : Span} {base exponent : Expr}
      (hbase : Derives .suffixed c base c₁) (hcaret : c₁.Passes (.symbol .caret) s c₂)
      (hexponent : Derives .unary c₂ exponent r) (hspan : span = base.span.merge exponent.span) :
      Derives .unary c (.binary .pow base exponent span) r
  | base {c r : Cursor} {e : Expr} (h : Derives .suffixed c e r) : Derives .unary c e r
  | int {c r : Cursor} {value : Whole} {span : Span} (h : c.Passes (.int value) span r) :
      Derives .suffixed c (.int value span) r
  | double {c r : Cursor} {value : Double} {span : Span} (h : c.Passes (.double value) span r) :
      Derives .suffixed c (.double value span) r
  | string {c r : Cursor} {value : String} {span : Span} (h : c.Passes (.string value) span r) :
      Derives .suffixed c (.string value span) r
  | yes {c r : Cursor} {span : Span} (h : c.Passes (.keyword .yes) span r) :
      Derives .suffixed c (.bool true span) r
  | no {c r : Cursor} {span : Span} (h : c.Passes (.keyword .no) span r) :
      Derives .suffixed c (.bool false span) r
  | ident {c r : Cursor} {name : String} {span : Span} (h : c.Passes (.ident name) span r) :
      Derives .suffixed c (.ident name span) r
  | call {c c₁ c₂ c₃ r : Cursor} {callee : Name} {args : List Expr} {openParen s span : Span}
      (hcallee : c.PassesName callee c₁) (hopen : c₁.Passes (.punct .openParen) openParen c₂)
      (hargs : Derives .args c₂ args c₃) (hclose : c₃.Passes (.punct .closeParen) s r)
      (hspan : span = callee.span.merge s) :
      Derives .suffixed c (.call callee args openParen span) r
  | paren {c c₁ c₂ r : Cursor} {s s₁ : Span} {e : Expr}
      (hopen : c.Passes (.punct .openParen) s c₁) (he : Derives .expression c₁ e c₂)
      (hclose : c₂.Passes (.punct .closeParen) s₁ r) :
      Derives .suffixed c e r
  | array {c c₁ c₂ r : Cursor} {items : List Expr} {s s₁ span : Span}
      (hopen : c.Passes (.punct .openBracket) s c₁) (hitems : Derives .args c₁ items c₂)
      (hclose : c₂.Passes (.punct .closeBracket) s₁ r) (hspan : span = s.merge s₁) :
      Derives .suffixed c (.array items span) r
  | index {c c₁ c₂ c₃ r : Cursor} {array position : Expr} {s s₁ span : Span}
      (harray : Derives .suffixed c array c₁) (hopen : c₁.Passes (.punct .openBracket) s c₂)
      (hposition : Derives .expression c₂ position c₃)
      (hclose : c₃.Passes (.punct .closeBracket) s₁ r) (hspan : span = array.span.merge s₁) :
      Derives .suffixed c (.index array position span) r
  | noArgs {c : Cursor} : Derives .args c [] c
  | args {c r : Cursor} {es : List Expr} (h : Derives .someArgs c es r) : Derives .args c es r
  | lastArg {c r : Cursor} {e : Expr} (h : Derives .expression c e r) : Derives .someArgs c [e] r
  | moreArgs {c c₁ c₂ r : Cursor} {s : Span} {e : Expr} {es : List Expr}
      (he : Derives .expression c e c₁) (hcomma : c₁.Passes (.punct .comma) s c₂)
      (hes : Derives .someArgs c₂ es r) :
      Derives .someArgs c (e :: es) r
  -- Parameters
  | untyped {c r : Cursor} {name : Name} (hname : c.PassesName name r) :
      Derives .param c ⟨name, none⟩ r
  | typed {c c₁ c₂ r : Cursor} {name : Name} {s : Span} {type : TypeName}
      (hname : c.PassesName name c₁) (hcolon : c₁.Passes (.punct .colon) s c₂)
      (htype : Derives .type c₂ type r) :
      Derives .param c ⟨name, some type⟩ r
  | noParams {c : Cursor} : Derives .params c [] c
  | params {c r : Cursor} {ps : List Param} (h : Derives .someParams c ps r) :
      Derives .params c ps r
  | lastParam {c r : Cursor} {p : Param} (h : Derives .param c p r) : Derives .someParams c [p] r
  | moreParams {c c₁ c₂ r : Cursor} {s : Span} {p : Param} {ps : List Param}
      (hp : Derives .param c p c₁) (hcomma : c₁.Passes (.punct .comma) s c₂)
      (hps : Derives .someParams c₂ ps r) :
      Derives .someParams c (p :: ps) r
  -- Statements
  | declare {c c₁ c₂ c₃ r : Cursor} {type : TypeName} {name : Name} {s : Span} {init : Expr}
      (htype : Derives .type c type c₁) (hname : c₁.PassesName name c₂)
      (hassign : c₂.Passes (.symbol .assign) s c₃) (hinit : Derives .expression c₃ init r) :
      Derives .statement c (.declare type name init) r
  | function {c c₁ c₂ c₃ c₄ c₅ c₆ c₇ r : Cursor} {s s₁ s₂ s₃ : Span} {name : Name}
      {ps : List Param} {result : TypeName} {body : List Stmt}
      (hword : c.Passes (.keyword .func) s c₁) (hname : c₁.PassesName name c₂)
      (hopen : c₂.Passes (.punct .openParen) s₁ c₃) (hparams : Derives .params c₃ ps c₄)
      (hclose : c₄.Passes (.punct .closeParen) s₂ c₅) (harrow : c₅.Passes (.punct .arrow) s₃ c₆)
      (hresult : Derives .type c₆ result c₇) (hbody : Derives .block c₇ body r) :
      Derives .statement c (.function name ps result body) r
  | assign {c c₁ c₂ r : Cursor} {target : Name} {op : AssignOp} {opSpan : Span} {value : Expr}
      (htarget : c.PassesName target c₁) (hsign : c₁.Passes (.symbol op.symbol) opSpan c₂)
      (hvalue : Derives .expression c₂ value r) :
      Derives .statement c (.assign target op opSpan value) r
  | print {c c₁ c₂ c₃ r : Cursor} {argument : Expr} {s s₁ s₂ span : Span}
      (hword : c.Passes (.keyword .print) s c₁) (hopen : c₁.Passes (.punct .openParen) s₁ c₂)
      (hargument : Derives .expression c₂ argument c₃)
      (hclose : c₃.Passes (.punct .closeParen) s₂ r) (hspan : span = s.merge s₂) :
      Derives .statement c (.print argument span) r
  | cond {c c₁ c₂ c₃ r : Cursor} {test : Expr} {body : List Stmt} {rest : Chain} {s span : Span}
      (hword : c.Passes (.keyword .cond) s c₁) (htest : Derives .expression c₁ test c₂)
      (hbody : Derives .block c₂ body c₃) (hrest : Derives .branches c₃ rest r)
      (hspan : span = s.merge r.last) :
      Derives .statement c (.cond test body rest span) r
  | loop {c c₁ c₂ r : Cursor} {test : Expr} {body : List Stmt} {s span : Span}
      (hword : c.Passes (.keyword .loop) s c₁) (htest : Derives .expression c₁ test c₂)
      (hbody : Derives .block c₂ body r) (hspan : span = s.merge r.last) :
      Derives .statement c (.loop test body span) r
  | each {c c₁ c₂ c₃ c₄ r : Cursor} {iterator : Name} {collection : Expr} {body : List Stmt}
      {s s₁ span : Span}
      (hword : c.Passes (.keyword .each) s c₁) (hiterator : c₁.PassesName iterator c₂)
      (hwithin : c₂.Passes (.keyword .within) s₁ c₃)
      (hcollection : Derives .expression c₃ collection c₄) (hbody : Derives .block c₄ body r)
      (hspan : span = s.merge r.last) :
      Derives .statement c (.each iterator collection body span) r
  | ret {c c₁ r : Cursor} {value : Expr} {s span : Span}
      (hword : c.Passes (.keyword .ret) s c₁) (hahead : valueAhead c₁)
      (hvalue : Derives .expression c₁ value r) (hspan : span = s.merge r.last) :
      Derives .statement c (.ret (some value) span) r
  | stop {c r : Cursor} {span : Span} (hword : c.Passes (.keyword .ret) span r)
      (hahead : ¬ valueAhead r) :
      Derives .statement c (.ret none span) r
  | callStatement {c c₁ c₂ c₃ r : Cursor} {callee : Name} {args : List Expr} {openParen s : Span}
      (hcallee : c.PassesName callee c₁) (hopen : c₁.Passes (.punct .openParen) openParen c₂)
      (hargs : Derives .args c₂ args c₃) (hclose : c₃.Passes (.punct .closeParen) s r) :
      Derives .statement c (.call callee args openParen) r
  | noStatements {c : Cursor} : Derives .statements c [] c
  | statements {c c₁ r : Cursor} {first : Stmt} {others : List Stmt}
      (hfirst : Derives .statement c first c₁) (hothers : Derives .statements c₁ others r) :
      Derives .statements c (first :: others) r
  | block {c c₁ c₂ r : Cursor} {body : List Stmt} {s s₁ : Span}
      (hopen : c.Passes (.punct .openBrace) s c₁) (hbody : Derives .statements c₁ body c₂)
      (hclose : c₂.Passes (.punct .closeBrace) s₁ r) :
      Derives .block c body r
  | finish {c : Cursor} : Derives .branches c .finish c
  | otherwise {c c₁ r : Cursor} {s : Span} {body : List Stmt}
      (hword : c.Passes (.keyword .otherwise) s c₁) (hbody : Derives .block c₁ body r) :
      Derives .branches c (.otherwise body) r
  | also {c c₁ c₂ c₃ c₄ r : Cursor} {s s₁ : Span} {test : Expr} {body : List Stmt} {rest : Chain}
      (hword : c.Passes (.keyword .otherwise) s c₁) (hword' : c₁.Passes (.keyword .cond) s₁ c₂)
      (htest : Derives .expression c₂ test c₃) (hbody : Derives .block c₃ body c₄)
      (hrest : Derives .branches c₄ rest r) :
      Derives .branches c (.also test body rest) r

/-- The whole of what is ahead is this program. -/
def IsProgram (c : Cursor) (statements : List Stmt) : Prop :=
  ∃ r, Derives .statements c statements r ∧ r.items = []

end Surface
end Barista
