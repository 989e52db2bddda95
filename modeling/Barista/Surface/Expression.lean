import Barista.Surface.Outcome

/-!
# Reading types and expressions

Recursive descent.  The binary operators form five levels, from the loosest to the tightest; every
level but the comparisons associates to the left, and comparisons do not associate at all.  Prefix
operators bind looser than powers, whose exponent may again have a prefix operator.
-/

namespace Barista
namespace Surface

open Cursor (only)

def typeName (c : Cursor) : Outcome c.length TypeName :=
  match c.view with
  | .fault f rest _ => .fail (.lexical f) rest
  | .finish => .fail (.unexpectedEnd .type c.stopSpan) c
  | .lexeme l rest h =>
    match l.token with
    | .keyword .int => .ok ⟨.int, l.span⟩ rest h
    | .keyword .double => .ok ⟨.double, l.span⟩ rest h
    | .keyword .bool => .ok ⟨.bool, l.span⟩ rest h
    | .keyword .string => .ok ⟨.string, l.span⟩ rest h
    | .keyword .void => .ok ⟨.void, l.span⟩ rest h
    | .keyword .array =>
      ((rest.expect (.punct .openBracket)).andThen fun _ c₁ _ ↦
        ((typeName c₁).andThen fun element c₂ _ ↦
          ((c₂.expect (.punct .closeBracket)).map fun close ↦
            ⟨.array element.type, l.span.merge close⟩).relax).relax).after h
    | found => .fail (.unexpectedToken .type found l.span) rest
termination_by c.length
decreasing_by omega

inductive Level
  | or
  | and
  | comparison
  | sum
  | product
deriving DecidableEq, Repr

namespace Level

def holds : Level → BinaryOp → Bool
  | or, op => op = .or
  | and, op => op = .and
  | comparison, op => op.isRelational
  | sum, op => op = .add || op = .sub
  | product, op => op = .mul || op = .div

def operator? (level : Level) : Token → Option BinaryOp
  | .symbol sign => (BinaryOp.ofSymbol? sign).filter level.holds
  | _ => none

def repeats (level : Level) : Bool :=
  level ≠ comparison

/-- Looser levels have greater ranks. -/
def rank : Level → Nat
  | or => 5
  | and => 4
  | comparison => 3
  | sum => 2
  | product => 1

theorem rank_le (level : Level) : level.rank ≤ 5 := by
  cases level <;> decide

end Level

def unaryOp? : Token → Option UnaryOp
  | .symbol sign => UnaryOp.ofSymbol? sign
  | _ => none

mutual

def expression (c : Cursor) : Outcome c.length Expr :=
  (binary .or c).andThen fun test c₁ _ ↦
    c₁.ifNext 1 (only (.punct .question))
      (fun _ _ c₂ _ ↦
        ((binary .or c₂).andThen fun yes c₃ _ ↦
          ((c₃.expect (.punct .colon)).andThen fun _ c₄ _ ↦
            ((expression c₄).map fun no ↦
              .ternary test yes no (test.span.merge no.span)).relax).relax).relax)
      (fun _ ↦ .done test c₁)
termination_by 16 * c.length + 13
decreasing_by all_goals have := Level.rank_le .or; omega

def binary (level : Level) (c : Cursor) : Outcome c.length Expr :=
  (operand level c).andThen fun left c₁ _ ↦ chain level left c₁
termination_by 16 * c.length + 2 * level.rank + 2

def operand (level : Level) (c : Cursor) : Outcome c.length Expr :=
  match level with
  | .or => binary .and c
  | .and => binary .comparison c
  | .comparison => binary .sum c
  | .sum => binary .product c
  | .product => unary c
termination_by 16 * c.length + 2 * level.rank + 1
decreasing_by all_goals simp only [Level.rank]; omega

/-- The operators of a level and their right operands behind the operand `left`. -/
def chain (level : Level) (left : Expr) (c : Cursor) : Outcome (c.length + 1) Expr :=
  c.ifNext 1 level.operator?
    (fun op _ c₁ _ ↦
      ((operand level c₁).andThen fun right c₂ _ ↦
        let whole := .binary op left right (left.span.merge right.span)
        if level.repeats then chain level whole c₂ else .done whole c₂).relax)
    (fun _ ↦ .done left c)
termination_by 16 * c.length
decreasing_by all_goals have := level.rank_le; omega

def unary (c : Cursor) : Outcome c.length Expr :=
  c.ifNext 0 unaryOp?
    (fun op l c₁ _ ↦
      ((unary c₁).map fun operand ↦ .unary op operand (l.span.merge operand.span)).relax)
    (fun _ ↦ power c)
termination_by 16 * c.length + 2

def power (c : Cursor) : Outcome c.length Expr :=
  (primary c).andThen fun first c₁ _ ↦
    (suffixes first c₁).andThen fun base c₂ _ ↦
      c₂.ifNext 1 (only (.symbol .caret))
        (fun _ _ c₃ _ ↦
          ((unary c₃).map fun exponent ↦
            .binary .pow base exponent (base.span.merge exponent.span)).relax)
        (fun _ ↦ .done base c₂)
termination_by 16 * c.length + 1

/-- The indices behind the expression `array`. -/
def suffixes (array : Expr) (c : Cursor) : Outcome (c.length + 1) Expr :=
  c.ifNext 1 (only (.punct .openBracket))
    (fun _ _ c₁ _ ↦
      ((expression c₁).andThen fun position c₂ _ ↦
        ((c₂.expect (.punct .closeBracket)).andThen fun close c₃ _ ↦
          suffixes (.index array position (array.span.merge close)) c₃).relax).relax)
    (fun _ ↦ .done array c)
termination_by 16 * c.length

def primary (c : Cursor) : Outcome c.length Expr :=
  match c.view with
  | .fault f rest _ => .fail (.lexical f) rest
  | .finish => .fail (.unexpectedEnd .expression c.stopSpan) c
  | .lexeme l rest h =>
    match l.token with
    | .int value => .ok (.int value l.span) rest h
    | .double value => .ok (.double value l.span) rest h
    | .string value => .ok (.string value l.span) rest h
    | .keyword .yes => .ok (.bool true l.span) rest h
    | .keyword .no => .ok (.bool false l.span) rest h
    | .ident name =>
      (rest.ifNext 1 (only (.punct .openParen))
        (fun _ openParen c₁ _ ↦
          ((items .closeParen c₁).map fun (args, close) ↦
            .call ⟨name, l.span⟩ args openParen.span (l.span.merge close)).relax)
        (fun _ ↦ .done (.ident name l.span) rest)).mono h
    | .punct .openParen =>
      ((expression rest).andThen fun inner c₁ _ ↦
        ((c₁.expect (.punct .closeParen)).map fun _ ↦ inner).relax).after h
    | .punct .openBracket =>
      ((items .closeBracket rest).map fun (values, close) ↦
        .array values (l.span.merge close)).after h
    | found => .fail (.unexpectedToken .expression found l.span) rest
termination_by 16 * c.length

/-- Expressions with commas between them up to the mark `close`, with the span of that mark. -/
def items (close : Punct) (c : Cursor) : Outcome c.length (List Expr × Span) :=
  c.ifNext 0 (only (.punct close))
    (fun _ l c₁ _ ↦ .done ([], l.span) c₁)
    (fun _ ↦
      (expression c).andThen fun first c₁ _ ↦
        ((moreItems close c₁).map fun (others, span) ↦ (first :: others, span)).relax)
termination_by 16 * c.length + 14

def moreItems (close : Punct) (c : Cursor) : Outcome c.length (List Expr × Span) :=
  c.ifNext 0 (only (.punct .comma))
    (fun _ _ c₁ _ ↦
      ((expression c₁).andThen fun first c₂ _ ↦
        ((moreItems close c₂).map fun (others, span) ↦ (first :: others, span)).relax).relax)
    (fun _ ↦ (c.expect (.punct close)).map fun span ↦ ([], span))
termination_by 16 * c.length

end

end Surface
end Barista
