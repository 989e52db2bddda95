import Barista.Surface.Statement
import Barista.Analysis.Statement
import Barista.Optimize.Statement
import Barista.Script.Line
import Barista.Diagnostic

/-!
# Compilation

The text of a program is parsed, analyzed, optimized on request and written out as JavaScript.  A
compilation also reports the events it passed, up to the point where it fails.
-/

namespace Barista

structure Options where
  optimize : Bool
deriving DecidableEq, Repr

namespace Options

def standard : Options := ⟨true⟩

def toggled (o : Options) : Options := ⟨!o.optimize⟩

end Options

open Barista.Core (Program)

/-- Parsing and analysis, with the events of the analysis. -/
def analyzeReporting (source : String) : Except Diagnostic Program × List Event :=
  match Surface.parse source with
  | .error e => (.error (.ofSyntaxError source e), [])
  | .ok statements =>
    match Analysis.analyze statements with
    | (.error e, log) => (.error (.ofSemanticError source e), log)
    | (.ok program, log) => (.ok program, log)

def analyze (source : String) : Except Diagnostic Program :=
  (analyzeReporting source).1

/-- The program to be written out, with the event of this step. -/
def prepare (options : Options) (p : Program) : Program × Event :=
  if options.optimize then
    let q := Optimize.program p
    (q, .optimized p.statements.length q.statements.length)
  else (p, .unoptimized)

def compileReporting (options : Options) (source : String) :
    Except Diagnostic String × List Event :=
  let start := Event.reading source.utf8ByteSize
  match analyzeReporting source with
  | (.error e, log) => (.error e, start :: log)
  | (.ok p, log) =>
    let (q, step) := prepare options p
    let lines := Script.generate q
    (.ok (Text.join lines), start :: log ++ [step, .printed lines.length])

def compile (options : Options) (source : String) : Except Diagnostic String :=
  (compileReporting options source).1

end Barista
