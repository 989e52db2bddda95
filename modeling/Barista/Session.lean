import Barista.Compile

/-!
# Sessions

A session collects the chunks of a program.  Each chunk is compiled together with everything
accepted before it, and only the lines that are new are shown.
-/

namespace Barista

structure Session where
  source : String
  options : Options
  emitted : Nat
deriving DecidableEq, Repr

namespace Session

def new (options : Options) : Session :=
  ⟨"", options, 0⟩

/-- The accepted text with a chunk behind it. -/
def extended (s : Session) (chunk : String) : String :=
  if s.source.isEmpty then chunk else s.source ++ "\n" ++ chunk

/-- The new lines of a chunk.  A chunk that cannot be compiled changes nothing. -/
def submit (s : Session) (chunk : String) : Except Diagnostic (List String) × Session :=
  match compile s.options (s.extended chunk) with
  | .error e => (.error e, s)
  | .ok script =>
    let lines := Text.lines script
    (.ok (lines.drop s.emitted),
      { s with source := s.extended chunk, emitted := lines.length })

/-- Switches the optimizer on or off and counts the lines of the accepted text anew. -/
def toggle (s : Session) : Except Diagnostic Unit × Session :=
  let s := { s with options := s.options.toggled }
  match compile s.options s.source with
  | .error e => (.error e, s)
  | .ok script => (.ok (), { s with emitted := (Text.lines script).length })

def reset (s : Session) : Session :=
  new s.options

end Session
end Barista
