import Barista.CommandLine

/-!
# The program

Reads the arguments and, for the shell, lines from standard input; everything else is decided by
`Invocation` and `Shell`.
-/

namespace Barista
namespace Main

def emit : Output → IO Unit
  | .out text => IO.println text
  | .err text => IO.eprintln text

def fileError (path : String) : IO.Error → FileError
  | .noFileOrDirectory _ _ _ => .notFound
  | .inappropriateType (some _) _ _ => .notDirectory
  | .inappropriateType none _ _ => .isDirectory
  | .permissionDenied _ _ _ => .other "Permission denied (os error 13)"
  | .invalidArgument _ _ _ => if path.toList.contains '\x00' then .nulInName else .nameTooLong
  | e => .other e.toString

def readText (path : String) : IO (Except FileError String) := do
  try
    let bytes ← IO.FS.readBinFile path
    return decodeText bytes
  catch e =>
    return .error (fileError path e)

/-- The file that the next line makes the shell read, if any. -/
def wanted? (shell : Shell) (line : String) : Option String :=
  match shell.command? line with
  | some (.load path) => path
  | _ => none

partial def converse (input : IO.FS.Stream) (shell : Shell) : IO Unit := do
  let raw ← input.getLine
  if raw.isEmpty then
    Shell.farewell.forM emit
  else
    let line := (Text.lines raw).headD ""
    let contents ← match wanted? shell line with
      | some path => readText path
      | none => pure (.error .notFound)
    let step := shell.feed (fun _ ↦ contents) line
    step.output.forM emit
    if step.running then converse input step.shell

def run (args : List String) : IO UInt32 := do
  let invocation := Invocation.ofArguments args
  match invocation.request with
  | .shell =>
    Shell.banner.forM emit
    converse (← IO.getStdin) (.start invocation.options)
    return 0
  | request =>
    let contents ← match request with
      | .file path => readText path
      | _ => pure (.error .notFound)
    let result := invocation.run (fun _ ↦ contents) ""
    result.output.forM emit
    return result.exitCode.toUInt32

end Main
end Barista

def main (args : List String) : IO UInt32 :=
  Barista.Main.run args
