import Barista.Analysis.Expression
import Barista.Event

/-!
# Analysis of statements

Statements are analyzed in order.  The state grows along the way: declared entities, the names that
are visible, and the events to report.  The first broken rule ends the analysis; the state at that
point is kept.
-/

namespace Barista
namespace Analysis

open Barista.Core (VarId FunId Entity Variable Function Entities Program)

structure State where
  entities : Entities
  scope : Scope
  log : List Event
deriving Repr

def State.initial : State := ⟨.empty, .empty, []⟩

def State.env (s : State) : Env := ⟨s.entities, s.scope⟩

abbrev Check := EStateM SemanticError State

namespace Check

variable {α : Type}

/-- A check that only looks at the state. -/
def within (check : Env → Except SemanticError α) : Check α := fun s ↦
  match check s.env with
  | .ok a => .ok a s
  | .error e => .error e s

def fail (cause : Cause) (span : Span) : Check α :=
  throw ⟨cause, span⟩

def report (event : Event) : Check Unit :=
  modify fun s ↦ { s with log := s.log ++ [event] }

def addVariable (v : Variable) : Check VarId := fun s ↦
  .ok s.entities.nextVariable { s with entities := s.entities.addVariable v }

def addFunction (f : Function) : Check FunId := fun s ↦
  .ok s.entities.nextFunction { s with entities := s.entities.addFunction f }

/-- A frame declares a name at most once. -/
def declare (name : Surface.Name) (entity : Entity) : Check Unit := fun s ↦
  if s.scope.declares name.text then .error ⟨.alreadyDeclared name.text, name.span⟩ s
  else .ok () { s with scope := s.scope.declare name.text entity }

/-- Runs a check in a frame of its own. -/
def nested (check : Check α) : Check α := fun s ↦
  match check { s with scope := s.scope.enter } with
  | .ok a s' => .ok a { s' with scope := s.scope }
  | .error e s' => .error e s'

end Check

open Check

/-- Parameters without a type are doubles. -/
def paramType (p : Surface.Param) : Ty :=
  match p.type with
  | some type => type.type
  | none => .double

def addParams : List Surface.Param → Check (List VarId)
  | [] => return []
  | p :: ps => do
    if paramType p = .void then
      fail .voidVariable p.name.span
    let id ← addVariable ⟨p.name.text, paramType p, true⟩
    let ids ← addParams ps
    return id :: ids

def declareParams : List Surface.Param → List VarId → Check Unit
  | p :: ps, id :: ids => do
    Check.declare p.name (.variable id)
    declareParams ps ids
  | _, _ => return ()

/-- A loop runs over the numbers below an integer or over the elements of an array. -/
def elementType? : Ty → Option Ty
  | .int => some .int
  | .array element => some element
  | _ => none

/-- The value of a `return` in a function with the given result type, or outside of any. -/
def returned (result : Option Ty) (value : Option Surface.Expr) (span : Span) :
    Check (Option Core.Expr) :=
  match result, value with
  | none, _ => fail .returnOutside span
  | some .void, none => return none
  | some _, none => fail .valueMissing span
  | some .void, some _ => fail .valueInVoid span
  | some result, some e => do
    let value ← within fun env ↦ env.expr (some result) e
    let found ← within fun env ↦ .ok (env.typeOf value)
    if result.accepts found then
      return some value
    else
      fail (.notReturnable found result) e.span

/-- Plain assignments need a value that the variable accepts, compound ones two numbers. -/
def assigned (target : Surface.Name) (op : AssignOp) (e : Surface.Expr) :
    Check (VarId × Core.Expr) := do
  let id ← within fun env ↦ env.resolveVariable target.text target.span
  let v ← within fun env ↦ .ok ((env.entities.findVariable? id).getD ⟨"", .void, false⟩)
  if v.readOnly then
    fail (.readOnly target.text) target.span
  let value ← within fun env ↦ env.expr (some v.type) e
  if op.isCompound then
    if !v.type.isNumeric then
      fail .notNumeric target.span
    within fun env ↦ env.requireNumeric value e.span
  else
    within fun env ↦ env.requireAssignable v.type value e.span
  return (id, value)

mutual

/-- `result` is the result type of the function in whose body the statement stands. -/
def stmt (result : Option Ty) : Surface.Stmt → Check Core.Stmt
  | .declare type name init => do
    if type.type = .void then
      fail .voidVariable type.span
    let value ← within fun env ↦ env.expr (some type.type) init
    within fun env ↦ env.requireAssignable type.type value init.span
    let id ← addVariable ⟨name.text, type.type, false⟩
    Check.declare name (.variable id)
    return .declare id value
  | .function name params type body => do
    let ids ← addParams params
    let id ← addFunction ⟨name.text, type.type, ids⟩
    Check.declare name (.function id)
    report (.enterFunction name.text)
    let body ← nested do
      declareParams params ids
      block (some type.type) body
    report (.leaveFunction name.text)
    return .function id body
  | .assign target op _ value => do
    let (id, value) ← assigned target op value
    return .assign id op value
  | .print argument _ => do
    let argument ← within fun env ↦ env.expr none argument
    return .print argument
  | .cond test body rest _ => do
    let test ← within fun env ↦ env.condition test
    let body ← block result body
    let rest ← chain result rest
    return .cond test body rest
  | .loop test body _ => do
    let test ← within fun env ↦ env.condition test
    report .enterLoop
    let body ← nested (block result body)
    report .leaveLoop
    return .loop test body
  | .each iterator collection body _ => do
    let value ← within fun env ↦ env.expr none collection
    let type ← within fun env ↦ .ok (env.typeOf value)
    match elementType? type with
    | none => fail .notIterable collection.span
    | some element =>
      let id ← addVariable ⟨iterator.text, element, true⟩
      report (.enterEach iterator.text)
      let body ← nested do
        Check.declare iterator (.variable id)
        block result body
      report (.leaveEach iterator.text)
      return .each id value body
  | .ret value span => do
    let value ← returned result value span
    return .ret value
  | .call callee args openParen => do
    let f ← within fun env ↦ env.resolveCallee callee args.length openParen
    let values ← within fun env ↦ env.exprs (env.paramHints f) args
    let type ← within fun env ↦ .ok (env.entities.resultOf f)
    return .call f values type

def block (result : Option Ty) : List Surface.Stmt → Check (List Core.Stmt)
  | [] => return []
  | s :: rest => do
    let first ← stmt result s
    let others ← block result rest
    return first :: others

def chain (result : Option Ty) : Surface.Chain → Check Core.Chain
  | .finish => return .finish
  | .otherwise body => do
    let body ← block result body
    return .otherwise body
  | .also test body rest => do
    let test ← within fun env ↦ env.condition test
    let body ← block result body
    let rest ← chain result rest
    return .also test body rest

end

/-- The core program of a surface program, with the events of its analysis. -/
def analyze (statements : List Surface.Stmt) : Except SemanticError Program × List Event :=
  match block none statements State.initial with
  | .ok core s =>
    (.ok ⟨core, s.entities⟩,
      s.log ++
        [.analyzed core.length s.entities.vars.length s.entities.funs.length])
  | .error e s => (.error e, s.log)

end Analysis
end Barista
