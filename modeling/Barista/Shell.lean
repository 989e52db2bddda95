import Barista.Session
import Barista.Folder
import Barista.Text.Blank

/-!
# The shell

The interactive shell as a machine that is fed one line at a time.  Lines are collected while a
block is open; a complete chunk goes to the session.  A line that starts with a colon is a
command, unless a block is open.
-/

namespace Barista

/-- One line of output, on standard output or on standard error. -/
inductive Output
  | out (text : String)
  | err (text : String)
deriving DecidableEq, Repr

namespace Output

def text : Output → String
  | out text | err text => text

def isOut : Output → Bool
  | out _ => true
  | err _ => false

end Output

def version : String := "1.0.0"

def helpText : String := "
IcedCoffee - a tiny typed language that compiles to JavaScript

USAGE:
    icedcoffee                   Start REPL (interactive mode)
    icedcoffee <file.ic>         Compile a file and print JavaScript
    icedcoffee -e \"<source>\"     Compile a snippet
    icedcoffee --help, -h        Show this help
    icedcoffee --version, -v     Show version

OPTIONS:
    --no-optimize                Skip the optimizer
    --json                       Print errors as JSON diagnostics

REPL COMMANDS:
    :help, :h                Show help
    :quit, :q, :exit         Exit REPL
    :reset, :r               Forget everything entered so far
    :optimize, :o            Toggle the optimizer
    :source, :s              Show the accumulated source
    :load <file>             Load a file into the session

EXAMPLES:
    icedcoffee -e \"print(5 + 8)\"
    icedcoffee --no-optimize program.ic

SYNTAX:
    int x = 3                    ## Declaration
    x += 1                       ## Compound assignment
    print(x > 2 ? x : 0)         ## Ternary
    array[int] xs = [1, 2, 3]
    for v in xs \x7b print(v) \x7d
    func square(n: int) -> int \x7b
      return n * n
    \x7d
"

namespace Shell

/-- Where a scan for braces stands. -/
inductive Mode
  | code
  | string
  | escape
  | comment
deriving DecidableEq, Repr

/-- Opening braces less closing braces, outside of strings and comments.  The count is exact here,
and an `i32` in the shell itself, so the two differ from 2^31 braces on. -/
def braceBalance : Mode → List Char → Int
  | _, [] => 0
  | .code, '"' :: cs => braceBalance .string cs
  | .code, '#' :: '#' :: cs => braceBalance .comment cs
  | .code, '{' :: cs => braceBalance .code cs + 1
  | .code, '}' :: cs => braceBalance .code cs - 1
  | .code, _ :: cs => braceBalance .code cs
  | .string, '\\' :: cs => braceBalance .escape cs
  | .string, '"' :: cs => braceBalance .code cs
  | .string, _ :: cs => braceBalance .string cs
  | .escape, _ :: cs => braceBalance .string cs
  | .comment, '\n' :: cs => braceBalance .code cs
  | .comment, _ :: cs => braceBalance .comment cs

def openBraces (text : String) : Int :=
  braceBalance .code text.toList

inductive Command
  | help
  | quit
  | reset
  | optimize
  | source
  | load (path : Option String)
  | unknown (word : String)
deriving DecidableEq, Repr

/-- A command is its first word; what stands behind the first blank is its argument. -/
def Command.ofLine (line : String) : Command :=
  let chars := line.toList
  let word := String.ofList (chars.takeWhile (· ≠ ' '))
  let argument :=
    match chars.dropWhile (· ≠ ' ') with
    | [] => none
    | _ :: rest => some (Text.trim (String.ofList rest))
  match word with
  | ":help" | ":h" => help
  | ":quit" | ":q" | ":exit" => quit
  | ":reset" | ":r" => reset
  | ":optimize" | ":o" => optimize
  | ":source" | ":s" => source
  | ":load" | ":l" => load argument
  | word => unknown word

end Shell

/-- A session and the lines of a chunk that is not complete yet. -/
structure Shell where
  session : Session
  buffer : String
deriving DecidableEq, Repr

/-- What became of a line: the shell after it, the output, and whether the shell goes on. -/
structure Shell.Step where
  shell : Shell
  output : List Output
  running : Bool
deriving DecidableEq, Repr

namespace Shell

def start (options : Options) : Shell :=
  ⟨.new options, ""⟩

def banner : List Output :=
  [.out s!"IcedCoffee {version} - compiles to JavaScript",
    .out "Type :help for commands, :quit to exit.", .out ""]

def farewell : List Output :=
  [.out "Goodbye!"]

def submit (session : Session) (chunk : String) : List Output × Session :=
  match session.submit (Text.trimEnd chunk) with
  | (.ok lines, session) => (lines.map .out, session)
  | (.error e, session) => ([.err e.text], session)

def load (read : String → Except FileError String) (session : Session) (path : String) :
    List Output × Session :=
  match read path with
  | .error e => ([.err s!"Error reading '{path}': {e.message}"], session)
  | .ok source =>
    let (output, session) := submit session source
    (.out s!"Loading {path}..." :: output, session)

def toggle (session : Session) : List Output × Session :=
  match session.toggle with
  | (.error e, session) => ([.err e.text], session)
  | (.ok _, session) =>
    ([.out (if session.options.optimize then "Optimizer on." else "Optimizer off.")], session)

/-- Commands are only read while no chunk is open, so the buffer is empty. -/
def obey (read : String → Except FileError String) (session : Session) : Command → Step
  | .help => ⟨⟨session, ""⟩, [.out helpText], true⟩
  | .quit => ⟨⟨session, ""⟩, [], false⟩
  | .reset => ⟨⟨session.reset, ""⟩, [.out "Session reset."], true⟩
  | .optimize =>
    let (output, session) := toggle session
    ⟨⟨session, ""⟩, output, true⟩
  | .source =>
    let shown := if session.source.isEmpty then "No source entered yet." else session.source
    ⟨⟨session, ""⟩, [.out shown], true⟩
  | .load none => ⟨⟨session, ""⟩, [.out "Usage: :load <file.ic>"], true⟩
  | .load (some path) =>
    let (output, session) := load read session path
    ⟨⟨session, ""⟩, output, true⟩
  | .unknown word =>
    ⟨⟨session, ""⟩, [.out s!"Unknown command: {word}", .out "Type :help for available commands."],
      true⟩

/-- Adds a line to the chunk and submits the chunk once its blocks are closed. -/
def collect (shell : Shell) (line : String) : Step :=
  let buffer := shell.buffer ++ line ++ "\n"
  if 0 < openBraces buffer then ⟨⟨shell.session, buffer⟩, [], true⟩
  else
    let (output, session) := submit shell.session buffer
    ⟨⟨session, ""⟩, output, true⟩

/-- The command that a line gives to this shell, if it is one. -/
def command? (shell : Shell) (line : String) : Option Command :=
  let trimmed := Text.trim line
  if shell.buffer.isEmpty ∧ trimmed.toList.head? = some ':' then some (.ofLine trimmed) else none

def feed (read : String → Except FileError String) (shell : Shell) (line : String) : Step :=
  if shell.buffer.isEmpty ∧ (Text.trim line).isEmpty then ⟨shell, [], true⟩
  else
    match shell.command? line with
    | some command => obey read shell.session command
    | none => shell.collect line

/-- Feeds lines until they end or a command stops the shell. -/
def run (read : String → Except FileError String) (shell : Shell) : List String → List Output
  | [] => farewell
  | line :: lines =>
    let step := shell.feed read line
    step.output ++ if step.running then step.shell.run read lines else []

/-- The whole output of a shell that reads `input`. -/
def transcript (read : String → Except FileError String) (options : Options) (input : String) :
    List Output :=
  banner ++ (start options).run read (Text.lines input)

end Shell
end Barista
