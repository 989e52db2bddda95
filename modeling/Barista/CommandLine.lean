import Barista.Shell

/-!
# The command line

What the arguments of the program ask for, and what the program then prints.
-/

namespace Barista

inductive Request
  | shell
  | help
  | version
  | eval (source : String)
  | file (path : String)
  | unknownOption (option : String)
  | tooManyArguments
deriving DecidableEq, Repr

structure Invocation where
  options : Options
  json : Bool
  request : Request
deriving DecidableEq, Repr

structure Result where
  exitCode : Nat
  output : List Output
deriving DecidableEq, Repr

namespace Request

def ofPositional : List String → Request
  | [] => shell
  | ["--help"] | ["-h"] => help
  | ["--version"] | ["-v"] => version
  | ["-e", source] | ["--eval", source] => eval source
  | [argument] =>
    if argument.toList.head? = some '-' then unknownOption argument else file argument
  | _ => tooManyArguments

end Request

namespace Invocation

/-- The two options may stand anywhere; the other arguments make the request. -/
def ofArguments (args : List String) : Invocation :=
  { options := ⟨!args.contains "--no-optimize"⟩
    json := args.contains "--json"
    request := .ofPositional (args.filter fun arg ↦ arg ≠ "--no-optimize" ∧ arg ≠ "--json") }

/-- An empty script is not printed. -/
def report (json : Bool) : Except Diagnostic String → Result
  | .ok script => ⟨0, if script.isEmpty then [] else [.out script]⟩
  | .error e => ⟨1, [if json then .out e.json else .err e.text]⟩

def usageError (message : String) : Result :=
  ⟨1, [.err message, .err "Use --help for usage information."]⟩

def compileFile (options : Options) (contents : Except FileError String) :
    Except Diagnostic String :=
  match contents with
  | .error e => .error (.file e.message)
  | .ok source => compile options source

/-- The result of an invocation, given how files are read and what standard input holds. -/
def run (read : String → Except FileError String) (input : String) (i : Invocation) : Result :=
  match i.request with
  | .shell => ⟨0, Shell.transcript read i.options input⟩
  | .help => ⟨0, [.out helpText]⟩
  | .version => ⟨0, [.out s!"IcedCoffee {Barista.version}"]⟩
  | .eval source => report i.json (compile i.options source)
  | .file path => report i.json (compileFile i.options (read path))
  | .unknownOption option => usageError s!"Unknown option: {option}"
  | .tooManyArguments => usageError "Too many arguments."

end Invocation
end Barista
