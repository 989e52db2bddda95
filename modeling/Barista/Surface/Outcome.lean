import Barista.Surface.Error
import Barista.Surface.Tree

/-!
# Outcomes of reading a phrase

Reading a phrase gives a value and the cursor behind it, or an error and the cursor at which reading
can be taken up again.  An outcome of type `Outcome n α` leaves fewer than `n` items when it
succeeds: a reader of type `Outcome c.length α` passes at least one item of `c`, one of type
`Outcome (c.length + 1) α` may pass none.
-/

namespace Barista
namespace Surface

inductive Outcome (n : Nat) (α : Type)
  | ok (value : α) (rest : Cursor) (bound : rest.length < n)
  | fail (error : SyntaxError) (rest : Cursor)

namespace Outcome

variable {α β : Type} {n m : Nat}

def mono (h : n ≤ m) : Outcome n α → Outcome m α
  | ok value rest bound => ok value rest (Nat.lt_of_lt_of_le bound h)
  | fail error rest => fail error rest

def relax (o : Outcome n α) : Outcome (n + 1) α :=
  o.mono (Nat.le_succ n)

/-- The outcome of reading on behind items that have been passed already. -/
def after (h : n < m) (o : Outcome n α) : Outcome m α :=
  o.mono (Nat.le_of_lt h)

def done (value : α) (c : Cursor) : Outcome (c.length + 1) α :=
  ok value c (Nat.lt_succ_self _)

def map (f : α → β) : Outcome n α → Outcome n β
  | ok value rest bound => ok (f value) rest bound
  | fail error rest => fail error rest

def andThen (o : Outcome n α)
    (f : α → (rest : Cursor) → rest.length < n → Outcome (rest.length + 1) β) : Outcome n β :=
  match o with
  | ok value rest bound => (f value rest bound).mono bound
  | fail error rest => fail error rest

/-- The value or the error alone. -/
def toExcept : Outcome n α → Except SyntaxError α
  | ok value _ _ => .ok value
  | fail error _ => .error error

/-- The cursor behind the phrase or behind the error. -/
def rest : Outcome n α → Cursor
  | ok _ rest _ => rest
  | fail _ rest => rest

end Outcome

end Surface

namespace Cursor

open Surface

variable {α β : Type}

/-- Passes the next token and gives what `accept` makes of it. -/
def take (c : Cursor) (expected : Expectation) (accept : Token → Option α) :
    Outcome c.length (α × Span) :=
  match c.view with
  | .lexeme l rest h =>
    match accept l.token with
    | some value => .ok (value, l.span) rest h
    | none => .fail (.unexpectedToken expected l.token l.span) rest
  | .fault f rest _ => .fail (.lexical f) rest
  | .finish => .fail (.unexpectedEnd expected c.stopSpan) c

/-- Accepts exactly one token. -/
def only (token : Token) (found : Token) : Option Unit :=
  if found = token then some () else none

def expect (c : Cursor) (token : Token) : Outcome c.length Span :=
  (c.take (.token token) (only token)).map Prod.snd

def expectName (c : Cursor) : Outcome c.length Name :=
  let name?
    | Token.ident name => some name
    | _ => none
  (c.take .identifier name?).map fun (name, span) ↦ ⟨name, span⟩

/-- Goes on with `present` behind the next token if `accept` takes it, and with `absent` in front of
it if not.  The `slack` is 1 where `absent` may pass no item, and 0 where it passes one, too. -/
def ifNext (c : Cursor) (slack : Nat) (accept : Token → Option β)
    (present : β → Lexeme → (rest : Cursor) → rest.length < c.length → Outcome (rest.length + 1) α)
    (absent : Unit → Outcome (c.length + slack) α) : Outcome (c.length + slack) α :=
  match c.view with
  | .lexeme l rest shorter =>
    match accept l.token with
    | some value => (present value l rest shorter).mono (Nat.le_add_right_of_le shorter)
    | none => absent ()
  | .fault f rest _ => .fail (.lexical f) rest
  | .finish => absent ()

end Cursor
end Barista
