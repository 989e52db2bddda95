import Barista.Script.Name
import Barista.Script.Expression
import Barista.Script.Tree
import Barista.Text.Lines

/-!
# The lines of a script

Each statement becomes one or more lines.  A block is indented by two blanks, its opening brace
ends the line in front of it and its closing brace starts the line behind it.  Names are given in
the order in which the script introduces its entities.
-/

namespace Barista
namespace Script

open Barista.Core (VarId FunId Entity Entities Expr)

structure Line where
  depth : Nat
  text : String
deriving DecidableEq, Repr

def Line.indented (line : Line) : String :=
  String.ofList (List.replicate (2 * line.depth) ' ') ++ line.text

namespace Names

def expr (names : Names) (entities : Entities) (e : Expr) : String :=
  render (names.refer entities) e

end Names

mutual

def linesOfStmt (entities : Entities) (depth : Nat) (names : Names) : Stmt → List Line × Names
  | .declare id init =>
    let value := names.expr entities init
    let (name, names) := names.declare entities (.variable id)
    ([⟨depth, s!"let {name} = {value};"⟩], names)
  | .hoist ids =>
    let (given, names) := names.declareAll entities (ids.map .variable)
    ([⟨depth, "let " ++ commaList given ++ ";"⟩], names)
  | .assign id op value =>
    let name := names.refer entities (.variable id)
    ([⟨depth, name ++ " " ++ op.text ++ " " ++ names.expr entities value ++ ";"⟩], names)
  | .print argument =>
    ([⟨depth, "console.log(" ++ names.expr entities argument ++ ");"⟩], names)
  | .cond test body rest =>
    let head : Line := ⟨depth, "if (" ++ names.expr entities test ++ ") \x7b"⟩
    let (body, names) := linesOfBlock entities (depth + 1) names body
    let (rest, names) := linesOfChain entities depth names rest
    (head :: body ++ rest, names)
  | .loop test body =>
    let head : Line := ⟨depth, "while (" ++ names.expr entities test ++ ") \x7b"⟩
    let (body, names) := linesOfBlock entities (depth + 1) names body
    (head :: body ++ [⟨depth, "\x7d"⟩], names)
  | .elements iterator array body =>
    let values := names.expr entities array
    let (name, names) := names.declare entities (.variable iterator)
    let head : Line := ⟨depth, s!"for (const {name} of {values}) \x7b"⟩
    let (body, names) := linesOfBlock entities (depth + 1) names body
    (head :: body ++ [⟨depth, "\x7d"⟩], names)
  | .count iterator limit body =>
    let stop := names.expr entities limit
    let (name, names) := names.declare entities (.variable iterator)
    let head : Line := ⟨depth, s!"for (let {name} = 0; {name} < {stop}; {name}++) \x7b"⟩
    let (body, names) := linesOfBlock entities (depth + 1) names body
    (head :: body ++ [⟨depth, "\x7d"⟩], names)
  | .ret none => ([⟨depth, "return;"⟩], names)
  | .ret (some value) => ([⟨depth, "return " ++ names.expr entities value ++ ";"⟩], names)
  | .function id params body =>
    let (name, names) := names.declare entities (.function id)
    let (inputs, names) := names.declareAll entities (params.map .variable)
    let head : Line := ⟨depth, "function " ++ name ++ inParens (commaList inputs) ++ " \x7b"⟩
    let (body, names) := linesOfBlock entities (depth + 1) names body
    (head :: body ++ [⟨depth, "\x7d"⟩], names)
  | .call callee args type =>
    ([⟨depth, names.expr entities (.call callee args type) ++ ";"⟩], names)

def linesOfBlock (entities : Entities) (depth : Nat) (names : Names) :
    List Stmt → List Line × Names
  | [] => ([], names)
  | s :: rest =>
    let (first, names) := linesOfStmt entities depth names s
    let (others, names) := linesOfBlock entities depth names rest
    (first ++ others, names)

/-- The branches that follow a block, and the brace that closes the last of them. -/
def linesOfChain (entities : Entities) (depth : Nat) (names : Names) : Chain → List Line × Names
  | .finish => ([⟨depth, "\x7d"⟩], names)
  | .otherwise body =>
    let (body, names) := linesOfBlock entities (depth + 1) names body
    (⟨depth, "\x7d else \x7b"⟩ :: body ++ [⟨depth, "\x7d"⟩], names)
  | .also test body rest =>
    let head : Line := ⟨depth, "\x7d else if (" ++ names.expr entities test ++ ") \x7b"⟩
    let (body, names) := linesOfBlock entities (depth + 1) names body
    let (rest, names) := linesOfChain entities depth names rest
    (head :: body ++ rest, names)

end

/-- The lines of a program in JavaScript. -/
def generate (p : Core.Program) : List String :=
  (linesOfBlock p.entities 0 .empty (ofProgram p)).1.map Line.indented

def generateText (p : Core.Program) : String :=
  Text.join (generate p)

end Script
end Barista
