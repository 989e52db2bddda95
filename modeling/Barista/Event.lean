/-!
# Events

What a compilation reports about its progress, in order.
-/

namespace Barista

inductive Event
  | reading (bytes : Nat)
  | enterFunction (name : String)
  | leaveFunction (name : String)
  | enterLoop
  | leaveLoop
  | enterEach (iterator : String)
  | leaveEach (iterator : String)
  | analyzed (statements vars funs : Nat)
  | optimized (before after : Nat)
  | unoptimized
  | printed (lines : Nat)
deriving DecidableEq, Repr

namespace Event

/-- Only the steps of the analysis are reported at the finer level. -/
def isTrace : Event → Bool
  | enterFunction _ | leaveFunction _ | enterLoop | leaveLoop | enterEach _ | leaveEach _ => true
  | _ => false

def message : Event → String
  | reading bytes => s!"compiler: analyzing {bytes} bytes"
  | enterFunction name => s!"analyzer: enter function '{name}'"
  | leaveFunction name => s!"analyzer: leave function '{name}'"
  | enterLoop => "analyzer: enter while body"
  | leaveLoop => "analyzer: leave while body"
  | enterEach iterator => s!"analyzer: enter for body over '{iterator}'"
  | leaveEach iterator => s!"analyzer: leave for body over '{iterator}'"
  | analyzed statements vars funs =>
    s!"analyzer: {statements} statements, {vars} variables, {funs} functions"
  | optimized before after => s!"optimizer: {before} top-level statements -> {after}"
  | unoptimized => "compiler: optimizer disabled"
  | printed lines => s!"js_backend: {lines} lines"

def text (e : Event) : String :=
  (if e.isTrace then "TRACE " else "DEBUG ") ++ e.message

end Event
end Barista
