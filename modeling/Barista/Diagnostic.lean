import Barista.Surface.Error
import Barista.Analysis.Error
import Barista.Text.Quoted

/-!
# Diagnostics

What a user is told about a failed compilation, in a text for people and in one for programs.  A
text that is no program is always located, a broken rule nearly always, a file that cannot be read
never.
-/

namespace Barista

inductive Diagnostic
  | grammar (message : String) (position : Position)
  | semantic (message : String) (position : Option Position)
  | file (message : String)
deriving DecidableEq, Repr

namespace Diagnostic

def ofSyntaxError (source : String) (e : Surface.SyntaxError) : Diagnostic :=
  grammar e.message (e.span.position source)

def ofSemanticError (source : String) (e : Analysis.SemanticError) : Diagnostic :=
  semantic e.cause.message (some (e.span.position source))

def kind : Diagnostic → String
  | grammar _ _ => "syntax"
  | semantic _ _ => "semantic"
  | file _ => "io"

def message : Diagnostic → String
  | grammar message _ | semantic message _ | file message => message

def position? : Diagnostic → Option Position
  | grammar _ position => some position
  | semantic _ position => position
  | file _ => none

/-- The message behind its position. -/
def located (d : Diagnostic) : String :=
  match d.position? with
  | some position => position.text ++ ": " ++ d.message
  | none => d.message

def title : Diagnostic → String
  | grammar _ _ => "Syntax error: "
  | semantic _ _ => "Semantic error: "
  | file _ => "IO error: "

def text (d : Diagnostic) : String :=
  d.title ++ d.located

/-- The diagnostic as a JSON object without blanks. -/
def json (d : Diagnostic) : String :=
  let place :=
    match d.position? with
    | some position => s!",\"line\":{position.line},\"column\":{position.column}"
    | none => ""
  "\x7b\"kind\":" ++ Text.quoted d.kind ++ ",\"message\":" ++ Text.quoted d.message ++ place ++
    "\x7d"

end Diagnostic
end Barista
