import Barista.Surface.Expression

/-!
# Reading statements

A statement is recognised by its first token.  A `return` takes a value exactly when the next token
stands on the same line and can begin an expression.
-/

namespace Barista
namespace Surface

open Cursor (only)

def param (c : Cursor) : Outcome c.length Param :=
  c.expectName.andThen fun name c₁ _ ↦
    c₁.ifNext 1 (only (.punct .colon))
      (fun _ _ c₂ _ ↦ ((typeName c₂).map fun type ↦ ⟨name, some type⟩).relax)
      (fun _ ↦ .done ⟨name, none⟩ c₁)

def moreParams (c : Cursor) : Outcome c.length (List Param) :=
  (param c).andThen fun first c₁ _ ↦
    c₁.ifNext 1 (only (.punct .comma))
      (fun _ _ c₂ _ ↦ ((moreParams c₂).map fun others ↦ first :: others).relax)
      (fun _ ↦ ((c₁.expect (.punct .closeParen)).map fun _ ↦ [first]).relax)
termination_by c.length

/-- Parameters with commas between them up to the closing parenthesis. -/
def params (c : Cursor) : Outcome c.length (List Param) :=
  c.ifNext 0 (only (.punct .closeParen))
    (fun _ _ c₁ _ ↦ .done [] c₁)
    (fun _ ↦ moreParams c)

def declaration (c : Cursor) : Outcome c.length Stmt :=
  (typeName c).andThen fun type c₁ _ ↦
    (c₁.expectName.andThen fun name c₂ _ ↦
      ((c₂.expect (.symbol .assign)).andThen fun _ c₃ _ ↦
        ((expression c₃).map fun init ↦ .declare type name init).relax).relax).relax

/-- The argument of the `print` at `start`. -/
def printed (start : Span) (c : Cursor) : Outcome c.length Stmt :=
  (c.expect (.punct .openParen)).andThen fun _ c₁ _ ↦
    ((expression c₁).andThen fun argument c₂ _ ↦
      ((c₂.expect (.punct .closeParen)).map fun close ↦
        .print argument (start.merge close)).relax).relax

/-- The value of the `return` at `start`, if it has one. -/
def returned (start : Span) (c : Cursor) : Outcome (c.length + 1) Stmt :=
  match c.view with
  | .fault f rest _ => .fail (.lexical f) rest
  | .finish => .done (.ret none start) c
  | .lexeme l _ _ =>
    if l.token.startsExpression && !l.onNewLine then
      ((expression c).andThen fun value c₁ _ ↦
        .done (.ret (some value) (start.merge c₁.last)) c₁).relax
    else .done (.ret none start) c

/-- What follows the name `target` at the start of a statement. -/
def assignOrCall (target : Name) (c : Cursor) : Outcome c.length Stmt :=
  match c.view with
  | .fault f rest _ => .fail (.lexical f) rest
  | .finish => .fail (.unexpectedEnd .assignOrCall c.stopSpan) c
  | .lexeme l rest h =>
    match l.token with
    | .punct .openParen =>
      ((items .closeParen rest).map fun (args, _) ↦
        .call target args l.span).after h
    | .symbol sign =>
      match AssignOp.ofSymbol? sign with
      | some op =>
        ((expression rest).map fun value ↦
          .assign target op l.span value).after h
      | none => .fail (.unexpectedToken .assignOrCall l.token l.span) c
    | found => .fail (.unexpectedToken .assignOrCall found l.span) c

mutual

def statement (c : Cursor) : Outcome c.length Stmt :=
  match c.view with
  | .fault f rest _ => .fail (.lexical f) rest
  | .finish => .fail (.unexpectedEnd .statement c.stopSpan) c
  | .lexeme l rest h =>
    match l.token with
    | .keyword .func => (function rest).after h
    | .keyword .print => (printed l.span rest).after h
    | .keyword .cond =>
      ((expression rest).andThen fun test c₁ _ ↦
        ((block c₁).andThen fun (body, close) c₂ _ ↦
          (branches close c₂).map fun (others, last) ↦
            .cond test body others (l.span.merge last)).relax).after h
    | .keyword .loop =>
      ((expression rest).andThen fun test c₁ _ ↦
        ((block c₁).map fun (body, close) ↦
          .loop test body (l.span.merge close)).relax).after h
    | .keyword .each =>
      (rest.expectName.andThen fun iterator c₁ _ ↦
        ((c₁.expect (.keyword .within)).andThen fun _ c₂ _ ↦
          ((expression c₂).andThen fun collection c₃ _ ↦
            ((block c₃).map fun (body, close) ↦
              .each iterator collection body (l.span.merge close)).relax).relax).relax).after h
    | .keyword .ret => (returned l.span rest).mono h
    | .keyword word =>
      if word.startsType then declaration c
      else .fail (.unexpectedToken .statement l.token l.span) c
    | .ident name => (assignOrCall ⟨name, l.span⟩ rest).after h
    | found => .fail (.unexpectedToken .statement found l.span) c
termination_by 2 * c.length

/-- Name, parameters, result type and body of a function. -/
def function (c : Cursor) : Outcome c.length Stmt :=
  c.expectName.andThen fun name c₁ _ ↦
    ((c₁.expect (.punct .openParen)).andThen fun _ c₂ _ ↦
      ((params c₂).andThen fun inputs c₃ _ ↦
        ((c₃.expect (.punct .arrow)).andThen fun _ c₄ _ ↦
          ((typeName c₄).andThen fun result c₅ _ ↦
            ((block c₅).map fun (body, _) ↦
              .function name inputs result body).relax).relax).relax).relax).relax
termination_by 2 * c.length

/-- Statements in braces, with the span of the closing brace. -/
def block (c : Cursor) : Outcome c.length (List Stmt × Span) :=
  (c.expect (.punct .openBrace)).andThen fun _ c₁ _ ↦ (blockRest c₁).relax
termination_by 2 * c.length

def blockRest (c : Cursor) : Outcome c.length (List Stmt × Span) :=
  match c.view with
  | .fault f rest _ => .fail (.lexical f) rest
  | .finish => .fail (.unexpectedEnd (.token (.punct .closeBrace)) c.stopSpan) c
  | .lexeme l rest h =>
    if l.token = .punct .closeBrace then .ok ([], l.span) rest h
    else
      (statement c).andThen fun first c₁ _ ↦
        ((blockRest c₁).map fun (others, close) ↦ (first :: others, close)).relax
termination_by 2 * c.length + 1

/-- The branches behind a block that ends at `close`, with the span of the last closing brace. -/
def branches (close : Span) (c : Cursor) : Outcome (c.length + 1) (Chain × Span) :=
  c.ifNext 1 (only (.keyword .otherwise))
    (fun _ _ c₁ _ ↦
      c₁.ifNext 1 (only (.keyword .cond))
        (fun _ _ c₂ _ ↦
          ((expression c₂).andThen fun test c₃ _ ↦
            ((block c₃).andThen fun (body, close) c₄ _ ↦
              (branches close c₄).map fun (others, last) ↦
                (.also test body others, last)).relax).relax)
        (fun _ ↦ ((block c₁).map fun (body, close) ↦ (.otherwise body, close)).relax))
    (fun _ ↦ .done (.finish, close) c)
termination_by 2 * c.length

end

/-- Statements up to the end of the text. -/
def program (c : Cursor) : Outcome (c.length + 1) (List Stmt) :=
  match c.view with
  | .fault f rest _ => .fail (.lexical f) rest
  | .finish => .done [] c
  | .lexeme _ _ _ =>
    ((statement c).andThen fun first c₁ _ ↦
      (program c₁).map fun others ↦ first :: others).relax
termination_by c.length

def parse (source : String) : Except SyntaxError (List Stmt) :=
  (program (Cursor.ofSource source)).toExcept

end Surface
end Barista
