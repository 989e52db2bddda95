import Barista.Token.Stream

/-!
# Syntax errors

Why a text is no program: a lexical fault, or a token (or the end of the text) where something else
was expected.
-/

namespace Barista
namespace Surface

inductive Expectation
  | token (wanted : Token)
  | statement
  | identifier
  | type
  | expression
  | assignOrCall
deriving DecidableEq, Repr

def Expectation.text : Expectation → String
  | token wanted => wanted.text
  | statement => "a statement"
  | identifier => "an identifier"
  | type => "a type"
  | expression => "an expression"
  | assignOrCall => "an assignment operator or '('"

inductive SyntaxError
  | lexical (fault : Fault)
  | unexpectedToken (expected : Expectation) (found : Token) (span : Span)
  | unexpectedEnd (expected : Expectation) (span : Span)
deriving DecidableEq, Repr

namespace SyntaxError

def span : SyntaxError → Span
  | lexical fault => fault.span
  | unexpectedToken _ _ span => span
  | unexpectedEnd _ span => span

def message : SyntaxError → String
  | lexical fault => fault.cause.message
  | unexpectedToken expected found _ => s!"Expected {expected.text}, found {found.text}"
  | unexpectedEnd expected _ => s!"Unexpected end of input: expected {expected.text}"

end SyntaxError
end Surface
end Barista
