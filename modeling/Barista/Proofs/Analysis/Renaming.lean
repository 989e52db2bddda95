import Barista.Proofs.Scoping.Occurrence
import Barista.Analysis.Statement
import Mathlib.Data.Set.Function
import Mathlib.Logic.Equiv.Basic

/-!
# The choice of names

The analysis compares names and does nothing else with them.  A program and the same program under
other names, different ones for different identifiers, are analyzed side by side: the two runs are
always in states that differ by the renaming alone, so that a lookup finds the same entity in both,
and they end alike.
-/

namespace Barista

/-! ## Renaming -/

section Rename

variable (r : String → String)

namespace Surface

def Name.rename (n : Name) : Name := ⟨r n.text, n.span⟩

def Param.rename (p : Param) : Param := ⟨p.name.rename r, p.type⟩

mutual

def Expr.rename : Expr → Expr
  | .int value span => .int value span
  | .double value span => .double value span
  | .bool value span => .bool value span
  | .string value span => .string value span
  | .ident name span => .ident (r name) span
  | .binary op left right span => .binary op (Expr.rename left) (Expr.rename right) span
  | .unary op operand span => .unary op (Expr.rename operand) span
  | .ternary test yes no span =>
      .ternary (Expr.rename test) (Expr.rename yes) (Expr.rename no) span
  | .call callee args openParen span =>
      .call (callee.rename r) (Expr.renameAll args) openParen span
  | .index base position span => .index (Expr.rename base) (Expr.rename position) span
  | .array items span => .array (Expr.renameAll items) span

def Expr.renameAll : List Expr → List Expr
  | [] => []
  | e :: es => Expr.rename e :: Expr.renameAll es

end

mutual

/-- The statement with all its identifiers renamed and all its spans kept. -/
def Stmt.rename : Stmt → Stmt
  | .declare type name init => .declare type (name.rename r) (init.rename r)
  | .function name params result body =>
      .function (name.rename r) (params.map (Param.rename r)) result (Stmt.renameAll body)
  | .assign target op opSpan value => .assign (target.rename r) op opSpan (value.rename r)
  | .print argument span => .print (argument.rename r) span
  | .cond test body rest span =>
      .cond (test.rename r) (Stmt.renameAll body) (Chain.rename rest) span
  | .loop test body span => .loop (test.rename r) (Stmt.renameAll body) span
  | .each iterator collection body span =>
      .each (iterator.rename r) (collection.rename r) (Stmt.renameAll body) span
  | .ret value span => .ret (value.map (Expr.rename r)) span
  | .call callee args openParen => .call (callee.rename r) (Expr.renameAll r args) openParen

def Stmt.renameAll : List Stmt → List Stmt
  | [] => []
  | s :: rest => Stmt.rename s :: Stmt.renameAll rest

def Chain.rename : Chain → Chain
  | .finish => .finish
  | .otherwise body => .otherwise (Stmt.renameAll body)
  | .also test body rest => .also (test.rename r) (Stmt.renameAll body) (Chain.rename rest)

end

@[simp] theorem Expr.span_rename (e : Expr) : (e.rename r).span = e.span := by
  cases e <;> rfl

@[simp] theorem Expr.length_renameAll (es : List Expr) :
    (Expr.renameAll r es).length = es.length := by
  induction es with
  | nil => rfl
  | cons e es ih => rw [Expr.renameAll, List.length_cons, List.length_cons, ih]

end Surface

namespace Core

def Variable.rename (v : Variable) : Variable := { v with name := r v.name }

def Function.rename (f : Function) : Function := { f with name := r f.name }

namespace Entities

/-- The same entities under other names. -/
def rename (e : Entities) : Entities :=
  ⟨e.vars.map (Variable.rename r), e.funs.map (Function.rename r)⟩

variable (e : Entities)

@[simp] theorem findVariable?_rename (id : VarId) :
    (e.rename r).findVariable? id = (e.findVariable? id).map (Variable.rename r) :=
  List.getElem?_map

@[simp] theorem findFunction?_rename (id : FunId) :
    (e.rename r).findFunction? id = (e.findFunction? id).map (Function.rename r) :=
  List.getElem?_map

@[simp] theorem typeOf_rename (id : VarId) : (e.rename r).typeOf id = e.typeOf id := by
  rw [typeOf, typeOf, findVariable?_rename]
  cases e.findVariable? id <;> rfl

@[simp] theorem paramsOf_rename (id : FunId) : (e.rename r).paramsOf id = e.paramsOf id := by
  rw [paramsOf, paramsOf, findFunction?_rename]
  cases e.findFunction? id <;> rfl

@[simp] theorem resultOf_rename (id : FunId) : (e.rename r).resultOf id = e.resultOf id := by
  rw [resultOf, resultOf, findFunction?_rename]
  cases e.findFunction? id <;> rfl

@[simp] theorem nextVariable_rename : (e.rename r).nextVariable = e.nextVariable := by
  simp [nextVariable, rename]

@[simp] theorem nextFunction_rename : (e.rename r).nextFunction = e.nextFunction := by
  simp [nextFunction, rename]

theorem rename_addVariable (v : Variable) :
    (e.addVariable v).rename r = (e.rename r).addVariable (v.rename r) := by
  simp [addVariable, rename]

theorem rename_addFunction (f : Function) :
    (e.addFunction f).rename r = (e.rename r).addFunction (f.rename r) := by
  simp [addFunction, rename]

end Entities

@[simp] theorem Expr.type_rename (entities : Entities) (e : Expr) :
    e.type (entities.rename r) = e.type entities := by
  cases e <;> simp [Expr.type]

/-- The same statements about entities with other names. -/
def Program.rename (p : Program) : Program := { p with entities := p.entities.rename r }

end Core

def Event.rename : Event → Event
  | .enterFunction name => .enterFunction (r name)
  | .leaveFunction name => .leaveFunction (r name)
  | .enterEach iterator => .enterEach (r iterator)
  | .leaveEach iterator => .leaveEach (r iterator)
  | event => event

namespace Analysis

def Cause.rename : Cause → Cause
  | .alreadyDeclared name => .alreadyDeclared (r name)
  | .undeclared name => .undeclared (r name)
  | .notVariable name => .notVariable (r name)
  | .notFunction name => .notFunction (r name)
  | .readOnly name => .readOnly (r name)
  | cause => cause

/-- The same error at the same place, about another name. -/
def SemanticError.rename (e : SemanticError) : SemanticError := ⟨e.cause.rename r, e.span⟩

def Frame.rename (frame : Frame) : Frame := frame.map fun entry ↦ (r entry.1, entry.2)

def Scope.rename (s : Scope) : Scope := ⟨Frame.rename r s.inner, s.outer.map (Frame.rename r)⟩

def Env.rename (env : Env) : Env := ⟨env.entities.rename r, env.scope.rename r⟩

def State.rename (s : State) : State :=
  ⟨s.entities.rename r, s.scope.rename r, s.log.map (Event.rename r)⟩

@[simp] theorem Env.typeOf_rename (env : Env) (e : Core.Expr) :
    (env.rename r).typeOf e = env.typeOf e :=
  e.type_rename r env.entities

@[simp] theorem Env.paramHints_rename (env : Env) (f : Core.FunId) :
    (env.rename r).paramHints f = env.paramHints f := by
  simp [Env.paramHints, Env.rename]

@[simp] theorem Env.arrayType_rename (env : Env) (hint : Option Ty) (items : List Core.Expr) :
    (env.rename r).arrayType hint items = env.arrayType hint items := by
  simp only [Env.arrayType, Env.typeOf_rename]

end Analysis

end Rename

namespace Analysis

open Barista.Core (VarId FunId Entity Variable Function)
open Surface (Expr Stmt Chain Param)

variable {r : String → String} {names : Set String} {α β γ : Type}

/-! ## Lookups -/

namespace Scope

variable {s : Scope} {name : String}

/-- Every name that the scope declares is among the given ones. -/
def Within (names : Set String) (s : Scope) : Prop :=
  ∀ frame ∈ s.inner :: s.outer, ∀ entry ∈ frame, entry.1 ∈ names

theorem within_empty : Scope.empty.Within names := by
  simp [Within, Scope.empty]

theorem Within.declare (h : s.Within names) (hname : name ∈ names) (entity : Entity) :
    (s.declare name entity).Within names := by
  obtain ⟨hinner, houter⟩ := List.forall_mem_cons.1 h
  exact List.forall_mem_cons.2 ⟨List.forall_mem_cons.2 ⟨hname, hinner⟩, houter⟩

theorem Within.enter (h : s.Within names) : s.enter.Within names :=
  List.forall_mem_cons.2 ⟨List.forall_mem_nil _, h⟩

theorem lookup_rename (hr : Set.InjOn r names) (hname : name ∈ names) (frame : Frame)
    (h : ∀ entry ∈ frame, entry.1 ∈ names) :
    (Frame.rename r frame).lookup (r name) = frame.lookup name := by
  induction frame with
  | nil => rfl
  | cons entry frame ih =>
      obtain ⟨hentry, hframe⟩ := List.forall_mem_cons.1 h
      have hkey : (r name == r entry.1) = (name == entry.1) := by
        rw [Bool.eq_iff_iff, beq_iff_eq, beq_iff_eq, hr.eq_iff hname hentry]
      rw [Frame.rename, List.map_cons, List.lookup_cons, List.lookup_cons, hkey]
      rw [← ih hframe, Frame.rename]

theorem lookup?_rename (hr : Set.InjOn r names) (hname : name ∈ names) (h : s.Within names) :
    (s.rename r).lookup? (r name) = s.lookup? name := by
  have hframes : ∀ frames : List Frame, (∀ frame ∈ frames, ∀ entry ∈ frame, entry.1 ∈ names) →
      (frames.map (Frame.rename r)).findSome? (fun frame ↦ frame.lookup (r name)) =
        frames.findSome? fun frame ↦ frame.lookup name := by
    intro frames hframes
    induction frames with
    | nil => rfl
    | cons frame frames ih =>
        obtain ⟨hframe, hframes⟩ := List.forall_mem_cons.1 hframes
        rw [List.map_cons, List.findSome?_cons, List.findSome?_cons, ih hframes,
          lookup_rename hr hname frame hframe]
  exact hframes (s.inner :: s.outer) h

theorem declares_rename (hr : Set.InjOn r names) (hname : name ∈ names) (h : s.Within names) :
    (s.rename r).declares (r name) = s.declares name := by
  rw [declares, declares, rename,
    lookup_rename hr hname s.inner (h s.inner List.mem_cons_self)]

end Scope

/-! ## Checks side by side -/

/-- The second check ends as the first does, up to the name in an error. -/
def Renames (r : String → String) (x x' : Except SemanticError α) : Prop :=
  x' = x.mapError (SemanticError.rename r)

theorem renames_ok {a : α} : Renames r (.ok a) (.ok a) := rfl

theorem renames_error {cause : Cause} {span : Span} :
    Renames r (.error ⟨cause, span⟩ : Except SemanticError α) (.error ⟨cause.rename r, span⟩) :=
  rfl

theorem Renames.bind {x x' : Except SemanticError α} {f f' : α → Except SemanticError β}
    (hx : Renames r x x') (hf : ∀ a, Renames r (f a) (f' a)) :
    Renames r (x >>= f) (x' >>= f') := by
  cases x with
  | ok a =>
      cases hx
      exact hf a
  | error e =>
      cases hx
      rfl

theorem Renames.ite {p : Prop} [Decidable p] {x x' y y' : Except SemanticError α}
    (hx : Renames r x x') (hy : Renames r y y') :
    Renames r (if p then x else y) (if p then x' else y') := by
  split
  · exact hx
  · exact hy

namespace Check

/-- Two runs that have ended alike: with the same value in states that differ by the renaming, or
with the same error up to the name in it. -/
inductive EndAlike (r : String → String) (names : Set String) :
    EStateM.Result SemanticError State α → EStateM.Result SemanticError State α → Prop
  | ok (a : α) (s : State) (h : s.scope.Within names) :
      EndAlike r names (.ok a s) (.ok a (s.rename r))
  | error (e : SemanticError) (s : State) :
      EndAlike r names (.error e s) (.error (e.rename r) (s.rename r))

/-- From states that differ by the renaming, the two checks end alike. -/
def Renames (r : String → String) (names : Set String) (x x' : Check α) : Prop :=
  ∀ s : State, s.scope.Within names → EndAlike r names (x s) (x' (s.rename r))

theorem renames_pure {a : α} : Renames r names (pure a) (pure a) :=
  fun s hs ↦ .ok a s hs

theorem renames_fail {cause : Cause} {span : Span} :
    Renames r names (fail cause span : Check α) (fail (cause.rename r) span) :=
  fun s _ ↦ .error ⟨cause, span⟩ s

theorem Renames.bind {x x' : Check α} {f f' : α → Check β} (hx : Renames r names x x')
    (hf : ∀ a, Renames r names (f a) (f' a)) : Renames r names (x >>= f) (x' >>= f') := by
  intro s hs
  have h := hx s hs
  change EndAlike r names (EStateM.bind x f s) (EStateM.bind x' f' (s.rename r))
  rw [EStateM.bind, EStateM.bind]
  generalize x s = y at h
  generalize x' (s.rename r) = y' at h
  cases h with
  | ok a t ht => exact hf a t ht
  | error e t => exact .error e t

theorem renames_fail_bind {cause : Cause} {span : Span} {f f' : α → Check β} :
    Renames r names ((fail cause span : Check α) >>= f) (fail (cause.rename r) span >>= f') :=
  fun s _ ↦ .error ⟨cause, span⟩ s

theorem Renames.ite {p : Prop} [Decidable p] {x x' y y' : Check α} (hx : Renames r names x x')
    (hy : Renames r names y y') :
    Renames r names (if p then x else y) (if p then x' else y') := by
  split
  · exact hx
  · exact hy

theorem renames_within {check check' : Env → Except SemanticError α}
    (h : ∀ env, env.scope.Within names → Analysis.Renames r (check env) (check' (env.rename r))) :
    Renames r names (within check) (within check') := by
  intro s hs
  have hcheck : check' (s.rename r).env = (check s.env).mapError (SemanticError.rename r) :=
    h s.env hs
  rw [within, within, hcheck]
  cases check s.env with
  | ok a => exact .ok a s hs
  | error e => exact .error e s

/-- What is read from the state may have another name in it. -/
theorem renames_read {g : Env → γ} {f f' : γ → Check α}
    (h : ∀ env, Renames r names (f (g env)) (f' (g (env.rename r)))) :
    Renames r names (within (fun env ↦ .ok (g env)) >>= f)
      (within (fun env ↦ .ok (g env)) >>= f') :=
  fun s hs ↦ h s.env s hs

theorem renames_report {event : Event} :
    Renames r names (report event) (report (event.rename r)) := by
  intro s hs
  have hstate : { s.rename r with log := (s.rename r).log ++ [event.rename r] } =
      State.rename r { s with log := s.log ++ [event] } := by
    simp [State.rename]
  have h := EndAlike.ok (r := r) () { s with log := s.log ++ [event] } hs
  rw [← hstate] at h
  exact h

theorem renames_addVariable {v : Variable} :
    Renames r names (addVariable v) (addVariable (v.rename r)) := by
  intro s hs
  have hstate : { s.rename r with entities := (s.rename r).entities.addVariable (v.rename r) } =
      State.rename r { s with entities := s.entities.addVariable v } := by
    rw [State.rename, State.rename, Core.Entities.rename_addVariable]
  rw [addVariable, addVariable, hstate, State.rename, Core.Entities.nextVariable_rename]
  exact .ok _ _ hs

theorem renames_addFunction {f : Function} :
    Renames r names (addFunction f) (addFunction (f.rename r)) := by
  intro s hs
  have hstate : { s.rename r with entities := (s.rename r).entities.addFunction (f.rename r) } =
      State.rename r { s with entities := s.entities.addFunction f } := by
    rw [State.rename, State.rename, Core.Entities.rename_addFunction]
  rw [addFunction, addFunction, hstate, State.rename, Core.Entities.nextFunction_rename]
  exact .ok _ _ hs

theorem renames_declare (hr : Set.InjOn r names) {name : Surface.Name} (hname : name.text ∈ names)
    {entity : Entity} :
    Renames r names (Check.declare name entity) (Check.declare (name.rename r) entity) := by
  intro s hs
  have hdeclares : (s.rename r).scope.declares (name.rename r).text =
      s.scope.declares name.text :=
    Scope.declares_rename hr hname hs
  rw [Check.declare, Check.declare, hdeclares]
  split
  · exact .error ⟨.alreadyDeclared name.text, name.span⟩ s
  · exact .ok () { s with scope := s.scope.declare name.text entity } (hs.declare hname entity)

theorem Renames.nested {x x' : Check α} (h : Renames r names x x') :
    Renames r names (nested x) (nested x') := by
  intro s hs
  have hx := h { s with scope := s.scope.enter } hs.enter
  have hstate : State.rename r { s with scope := s.scope.enter } =
      { s.rename r with scope := (s.rename r).scope.enter } := rfl
  rw [hstate] at hx
  simp only [Check.nested]
  generalize x { s with scope := s.scope.enter } = y at hx
  generalize x' { s.rename r with scope := (s.rename r).scope.enter } = y' at hx
  cases hx with
  | ok a t ht => exact .ok a { t with scope := s.scope } hs
  | error e t => exact .error e t

end Check

/-! ## Expressions -/

namespace Env

variable {env : Env} {span : Span}

theorem resolveVariable_renames (hr : Set.InjOn r names) (henv : env.scope.Within names)
    {name : String} (hname : name ∈ names) :
    Renames r (env.resolveVariable name span) ((env.rename r).resolveVariable (r name) span) := by
  have hlookup : (env.rename r).scope.lookup? (r name) = env.scope.lookup? name :=
    Scope.lookup?_rename hr hname henv
  rw [resolveVariable, resolveVariable, hlookup]
  rcases env.scope.lookup? name with _ | _ | _
  · exact renames_error
  · exact renames_ok
  · exact renames_error

theorem resolveFunction_renames (hr : Set.InjOn r names) (henv : env.scope.Within names)
    {name : String} (hname : name ∈ names) :
    Renames r (env.resolveFunction name span) ((env.rename r).resolveFunction (r name) span) := by
  have hlookup : (env.rename r).scope.lookup? (r name) = env.scope.lookup? name :=
    Scope.lookup?_rename hr hname henv
  rw [resolveFunction, resolveFunction, hlookup]
  rcases env.scope.lookup? name with _ | _ | _
  · exact renames_error
  · exact renames_error
  · exact renames_ok

theorem requireBool_renames {e : Core.Expr} :
    Renames r (env.requireBool e span) ((env.rename r).requireBool e span) := by
  rw [requireBool, requireBool, typeOf_rename]
  exact renames_ok.ite renames_error

theorem requireNumeric_renames {e : Core.Expr} :
    Renames r (env.requireNumeric e span) ((env.rename r).requireNumeric e span) := by
  rw [requireNumeric, requireNumeric, typeOf_rename]
  exact renames_ok.ite renames_error

theorem requireAssignable_renames {target : Ty} {e : Core.Expr} :
    Renames r (env.requireAssignable target e span)
      ((env.rename r).requireAssignable target e span) := by
  rw [requireAssignable, requireAssignable, typeOf_rename]
  exact renames_ok.ite renames_error

theorem resolveCallee_renames (hr : Set.InjOn r names) (henv : env.scope.Within names)
    {callee : Surface.Name} (hcallee : callee.text ∈ names) {count : Nat} :
    Renames r (env.resolveCallee callee count span)
      ((env.rename r).resolveCallee (callee.rename r) count span) := by
  rw [resolveCallee, resolveCallee]
  refine (resolveFunction_renames hr henv hcallee).bind fun f ↦ ?_
  have hparams : (env.rename r).entities.paramsOf f = env.entities.paramsOf f :=
    Core.Entities.paramsOf_rename r env.entities f
  rw [hparams]
  exact renames_ok.ite renames_error

mutual

/-- A renamed expression becomes the same core expression. -/
theorem expr_renames (hr : Set.InjOn r names) (henv : env.scope.Within names) (hint : Option Ty) :
    ∀ e : Expr, (∀ n ∈ e.names, n.text ∈ names) →
      Renames r (env.expr hint e) ((env.rename r).expr hint (e.rename r))
  | .int _ _, _ | .double _ _, _ | .bool _ _, _ | .string _ _, _ => by
      rw [Expr.rename, expr, expr]
      exact renames_ok
  | .ident name span, h => by
      rw [Expr.rename, expr, expr]
      exact (resolveVariable_renames hr henv (h _ List.mem_cons_self)).bind fun id ↦ renames_ok
  | .binary op left right span, h => by
      obtain ⟨hleft, hright⟩ := List.forall_mem_append.1 h
      rw [Expr.rename, expr, expr]
      refine (expr_renames hr henv none left hleft).bind fun l ↦ ?_
      refine (expr_renames hr henv none right hright).bind fun r ↦ ?_
      rw [Expr.span_rename, Expr.span_rename, typeOf_rename]
      refine Renames.ite ?_ (Renames.ite ?_ renames_ok)
      · exact requireNumeric_renames.bind fun _ ↦ requireNumeric_renames.bind fun _ ↦ renames_ok
      · exact requireBool_renames.bind fun _ ↦ requireBool_renames.bind fun _ ↦ renames_ok
  | .unary .not operand span, h => by
      rw [Expr.rename, expr, expr, Expr.span_rename]
      refine (expr_renames hr henv none operand h).bind fun e ↦ ?_
      exact requireBool_renames.bind fun _ ↦ renames_ok
  | .unary .neg operand span, h => by
      rw [Expr.rename, expr, expr]
      refine (expr_renames hr henv none operand h).bind fun e ↦ ?_
      rw [typeOf_rename]
      exact renames_ok
  | .ternary test yes no span, h => by
      obtain ⟨h, hno⟩ := List.forall_mem_append.1 h
      obtain ⟨htest, hyes⟩ := List.forall_mem_append.1 h
      rw [Expr.rename, expr, expr, Expr.span_rename]
      refine (expr_renames hr henv none test htest).bind fun t ↦ ?_
      refine requireBool_renames.bind fun _ ↦ ?_
      refine (expr_renames hr henv hint yes hyes).bind fun y ↦ ?_
      refine (expr_renames hr henv hint no hno).bind fun n ↦ ?_
      rw [typeOf_rename, typeOf_rename]
      exact renames_ok.ite renames_error
  | .call callee args openParen span, h => by
      obtain ⟨hcallee, hargs⟩ := List.forall_mem_cons.1 h
      rw [Expr.rename, expr, expr, Expr.length_renameAll]
      refine (resolveCallee_renames hr henv hcallee).bind fun f ↦ ?_
      rw [paramHints_rename]
      refine (exprs_renames hr henv _ args hargs).bind fun values ↦ ?_
      have hresult : (env.rename r).entities.resultOf f = env.entities.resultOf f :=
        Core.Entities.resultOf_rename r env.entities f
      rw [hresult]
      exact renames_ok
  | .index base position span, h => by
      obtain ⟨hbase, hposition⟩ := List.forall_mem_append.1 h
      rw [Expr.rename, expr, expr, Expr.span_rename, Expr.span_rename]
      refine (expr_renames hr henv none base hbase).bind fun a ↦ ?_
      rw [typeOf_rename]
      cases env.typeOf a with
      | array element =>
          refine (expr_renames hr henv none position hposition).bind fun i ↦ ?_
          rw [typeOf_rename]
          exact renames_ok.ite renames_error
      | _ => exact renames_error
  | .array items span, h => by
      rw [Expr.rename, expr, expr, Expr.length_renameAll]
      refine (exprs_renames hr henv _ items h).bind fun values ↦ ?_
      rw [arrayType_rename]
      exact renames_ok

theorem exprs_renames (hr : Set.InjOn r names) (henv : env.scope.Within names)
    (hints : List (Option Ty)) :
    ∀ es : List Expr, (∀ n ∈ Expr.allNames es, n.text ∈ names) →
      Renames r (env.exprs hints es) ((env.rename r).exprs hints (Expr.renameAll r es))
  | [], _ => by
      rw [Expr.renameAll, exprs, exprs]
      exact renames_ok
  | e :: es, h => by
      obtain ⟨he, hes⟩ := List.forall_mem_append.1 h
      rw [Expr.renameAll, exprs, exprs]
      refine (expr_renames hr henv _ e he).bind fun value ↦ ?_
      exact (exprs_renames hr henv _ es hes).bind fun values ↦ renames_ok

end

theorem condition_renames (hr : Set.InjOn r names) (henv : env.scope.Within names) {e : Expr}
    (h : ∀ n ∈ e.names, n.text ∈ names) :
    Renames r (env.condition e) ((env.rename r).condition (e.rename r)) := by
  rw [condition, condition, Expr.span_rename]
  refine (expr_renames hr henv none e h).bind fun test ↦ ?_
  exact requireBool_renames.bind fun _ ↦ renames_ok

end Env

/-! ## Statements -/

open Check Scoping.Trail

theorem addParams_renames : ∀ params : List Param,
    Check.Renames r names (addParams params) (addParams (params.map (Param.rename r)))
  | [] => renames_pure
  | p :: ps => by
      rw [List.map_cons, addParams, addParams]
      refine Check.Renames.ite renames_fail_bind ?_
      refine renames_addVariable.bind fun id ↦ ?_
      exact (addParams_renames ps).bind fun ids ↦ renames_pure

theorem declareParams_renames (hr : Set.InjOn r names) : ∀ (params : List Param) (ids : List VarId),
    (∀ n ∈ params.map Param.name, n.text ∈ names) →
      Check.Renames r names (declareParams params ids)
        (declareParams (params.map (Param.rename r)) ids)
  | [], [], _ | [], _ :: _, _ | _ :: _, [], _ => renames_pure
  | p :: ps, id :: ids, h => by
      obtain ⟨hp, hps⟩ := List.forall_mem_cons.1 h
      rw [List.map_cons, declareParams, declareParams]
      exact (renames_declare hr hp).bind fun _ ↦ declareParams_renames hr ps ids hps

theorem returned_renames (hr : Set.InjOn r names) {result : Option Ty} {span : Span}
    {value : Option Expr} (h : ∀ n ∈ value.elim [] Expr.names, n.text ∈ names) :
    Check.Renames r names (returned result value span)
      (returned result (value.map (Expr.rename r)) span) := by
  cases result with
  | none => exact renames_fail
  | some type =>
      cases value with
      | none =>
          cases type with
          | void => exact renames_pure
          | _ => exact renames_fail
      | some e =>
          by_cases hvoid : type = .void
          · subst hvoid
            exact renames_fail
          · rw [Option.map_some, returned, returned]
            · refine (renames_within fun env henv ↦ Env.expr_renames hr henv _ e h).bind fun v ↦ ?_
              refine renames_read fun env ↦ ?_
              rw [Env.typeOf_rename, Expr.span_rename]
              exact renames_pure.ite renames_fail
            · exact hvoid
            · exact hvoid

theorem assigned_renames (hr : Set.InjOn r names) {target : Surface.Name} {op : AssignOp}
    {e : Expr} (htarget : target.text ∈ names) (h : ∀ n ∈ e.names, n.text ∈ names) :
    Check.Renames r names (assigned target op e) (assigned (target.rename r) op (e.rename r)) := by
  rw [assigned, assigned, Expr.span_rename]
  refine Check.Renames.bind (renames_within fun env henv ↦
    Env.resolveVariable_renames hr henv htarget) fun id ↦ ?_
  refine renames_read fun env ↦ ?_
  generalize hv : (env.entities.findVariable? id).getD ⟨"", .void, false⟩ = v
  generalize hv' : ((env.rename r).entities.findVariable? id).getD ⟨"", .void, false⟩ = v'
  -- The two variables may have different names, but these are not looked at.
  obtain ⟨htype, hreadOnly⟩ : v'.type = v.type ∧ v'.readOnly = v.readOnly := by
    rw [← hv, ← hv', Env.rename, Core.Entities.findVariable?_rename]
    cases env.entities.findVariable? id <;> exact ⟨rfl, rfl⟩
  dsimp only
  rw [htype, hreadOnly]
  refine Check.Renames.ite renames_fail_bind ?_
  refine (renames_within fun env henv ↦ Env.expr_renames hr henv _ e h).bind fun value ↦ ?_
  refine Check.Renames.ite (Check.Renames.ite renames_fail_bind ?_) ?_
  · exact (renames_within fun env _ ↦ env.requireNumeric_renames).bind fun _ ↦ renames_pure
  · exact (renames_within fun env _ ↦ env.requireAssignable_renames).bind fun _ ↦ renames_pure

mutual

/-- A renamed statement becomes the same core statement. -/
theorem stmt_renames (hr : Set.InjOn r names) (result : Option Ty) :
    ∀ st : Stmt, (∀ n ∈ contents st.trail, n.text ∈ names) →
      Check.Renames r names (stmt result st) (stmt result (st.rename r))
  | .declare type name init, h => by
      simp only [Stmt.trail, contents_append, contents_map_use, contents_cons_bind, contents_nil,
        List.forall_mem_append, List.forall_mem_singleton] at h
      obtain ⟨hinit, hname⟩ := h
      rw [Stmt.rename, stmt, stmt, Expr.span_rename]
      refine Check.Renames.ite renames_fail_bind ?_
      refine (renames_within fun env henv ↦ Env.expr_renames hr henv _ init hinit).bind fun v ↦ ?_
      refine (renames_within fun env _ ↦ env.requireAssignable_renames).bind fun _ ↦ ?_
      refine renames_addVariable.bind fun id ↦ ?_
      exact (renames_declare hr hname).bind fun _ ↦ renames_pure
  | .function name params type body, h => by
      simp only [Stmt.trail, contents_append, contents_map_bind, contents_cons_bind,
        contents_nested, List.forall_mem_cons, List.forall_mem_append] at h
      obtain ⟨hname, hparams, hbody⟩ := h
      rw [Stmt.rename, stmt, stmt]
      refine (addParams_renames params).bind fun ids ↦ ?_
      refine renames_addFunction.bind fun id ↦ ?_
      refine (renames_declare hr hname).bind fun _ ↦ ?_
      refine renames_report.bind fun _ ↦ ?_
      refine Check.Renames.bind (Renames.nested ?_) fun core ↦ ?_
      · exact (declareParams_renames hr params ids hparams).bind fun _ ↦
          block_renames hr _ body hbody
      · exact renames_report.bind fun _ ↦ renames_pure
  | .assign target op opSpan value, h => by
      simp only [Stmt.trail, contents_cons_use, contents_map_use, List.forall_mem_cons] at h
      obtain ⟨htarget, hvalue⟩ := h
      rw [Stmt.rename, stmt, stmt]
      exact (assigned_renames hr htarget hvalue).bind fun _ ↦ renames_pure
  | .print argument span, h => by
      simp only [Stmt.trail, contents_map_use] at h
      rw [Stmt.rename, stmt, stmt]
      exact (renames_within fun env henv ↦ Env.expr_renames hr henv _ argument h).bind fun _ ↦
        renames_pure
  | .cond test body rest span, h => by
      simp only [Stmt.trail, contents_append, contents_map_use, List.forall_mem_append] at h
      obtain ⟨⟨htest, hbody⟩, hrest⟩ := h
      rw [Stmt.rename, stmt, stmt]
      refine (renames_within fun env henv ↦ Env.condition_renames hr henv htest).bind fun _ ↦ ?_
      refine (block_renames hr result body hbody).bind fun _ ↦ ?_
      exact (chain_renames hr result rest hrest).bind fun _ ↦ renames_pure
  | .loop test body span, h => by
      simp only [Stmt.trail, contents_append, contents_map_use, contents_nested,
        List.forall_mem_append] at h
      obtain ⟨htest, hbody⟩ := h
      rw [Stmt.rename, stmt, stmt]
      refine (renames_within fun env henv ↦ Env.condition_renames hr henv htest).bind fun _ ↦ ?_
      refine renames_report.bind fun _ ↦ ?_
      refine (block_renames hr result body hbody).nested.bind fun _ ↦ ?_
      exact renames_report.bind fun _ ↦ renames_pure
  | .each iterator collection body span, h => by
      simp only [Stmt.trail, contents_append, contents_map_use, contents_cons_bind,
        contents_nested, List.forall_mem_cons, List.forall_mem_append] at h
      obtain ⟨hcollection, hiterator, hbody⟩ := h
      rw [Stmt.rename, stmt, stmt, Expr.span_rename]
      refine Check.Renames.bind (renames_within fun env henv ↦
        Env.expr_renames hr henv _ collection hcollection) fun value ↦ ?_
      refine renames_read fun env ↦ ?_
      rw [Env.typeOf_rename]
      cases elementType? (env.typeOf value) with
      | none => exact renames_fail
      | some element =>
          refine renames_addVariable.bind fun id ↦ ?_
          refine renames_report.bind fun _ ↦ ?_
          refine Check.Renames.bind (Renames.nested ?_) fun core ↦ ?_
          · exact (renames_declare hr hiterator).bind fun _ ↦ block_renames hr result body hbody
          · exact renames_report.bind fun _ ↦ renames_pure
  | .ret value span, h => by
      simp only [Stmt.trail, contents_map_use] at h
      rw [Stmt.rename, stmt, stmt]
      exact (returned_renames hr h).bind fun _ ↦ renames_pure
  | .call callee args openParen, h => by
      simp only [Stmt.trail, contents_cons_use, contents_map_use, List.forall_mem_cons] at h
      obtain ⟨hcallee, hargs⟩ := h
      rw [Stmt.rename, stmt, stmt, Expr.length_renameAll]
      refine Check.Renames.bind (renames_within fun env henv ↦
        Env.resolveCallee_renames hr henv hcallee) fun f ↦ ?_
      refine Check.Renames.bind (renames_within fun env henv ↦ ?_) fun values ↦ ?_
      · rw [Env.paramHints_rename]
        exact Env.exprs_renames hr henv _ args hargs
      · refine renames_read fun env ↦ ?_
        rw [Env.rename, Core.Entities.resultOf_rename]
        exact renames_pure

theorem block_renames (hr : Set.InjOn r names) (result : Option Ty) :
    ∀ body : List Stmt, (∀ n ∈ contents (Stmt.allTrail body), n.text ∈ names) →
      Check.Renames r names (block result body) (block result (Stmt.renameAll r body))
  | [], _ => by
      rw [Stmt.renameAll, block]
      exact renames_pure
  | st :: rest, h => by
      simp only [Stmt.allTrail, contents_append, List.forall_mem_append] at h
      obtain ⟨hst, hrest⟩ := h
      rw [Stmt.renameAll, block, block]
      refine (stmt_renames hr result st hst).bind fun _ ↦ ?_
      exact (block_renames hr result rest hrest).bind fun _ ↦ renames_pure

theorem chain_renames (hr : Set.InjOn r names) (result : Option Ty) :
    ∀ ch : Chain, (∀ n ∈ contents ch.trail, n.text ∈ names) →
      Check.Renames r names (chain result ch) (chain result (ch.rename r))
  | .finish, _ => by
      rw [Chain.rename, chain]
      exact renames_pure
  | .otherwise body, h => by
      rw [Chain.rename, chain, chain]
      exact (block_renames hr result body h).bind fun _ ↦ renames_pure
  | .also test body rest, h => by
      simp only [Chain.trail, contents_append, contents_map_use, List.forall_mem_append] at h
      obtain ⟨⟨htest, hbody⟩, hrest⟩ := h
      rw [Chain.rename, chain, chain]
      refine (renames_within fun env henv ↦ Env.condition_renames hr henv htest).bind fun _ ↦ ?_
      refine (block_renames hr result body hbody).bind fun _ ↦ ?_
      exact (chain_renames hr result rest hrest).bind fun _ ↦ renames_pure

end

/-- The analysis of a renamed program is the analysis of the program, renamed.  When no two
identifiers of the program get the same name, it is accepted if the program is, with the same core
statements and the same entities under their new names; if the program is refused, so is the renamed
one, at the same place and for the same reason, about the new name; and the events correspond. -/
theorem analyze_rename (r : String → String) (statements : List Stmt)
    (hr : Set.InjOn r {x | ∃ n ∈ contents (Stmt.allTrail statements), n.text = x}) :
    analyze (Stmt.renameAll r statements) =
      (((analyze statements).1.map (Core.Program.rename r)).mapError (SemanticError.rename r),
        (analyze statements).2.map (Event.rename r)) := by
  have h := block_renames hr none statements (fun n hn ↦ ⟨n, hn, rfl⟩) State.initial
    Scope.within_empty
  have hinitial : State.initial.rename r = State.initial := rfl
  rw [hinitial] at h
  rw [analyze, analyze]
  generalize block none statements State.initial = y at h
  generalize block none (Stmt.renameAll r statements) State.initial = y' at h
  cases h with
  | ok core s hs =>
      simp [State.rename, Core.Entities.rename, Core.Program.rename, Except.map, Except.mapError,
        Event.rename]
  | error e s => rfl

/-- The names `x` and `y` trade places.  Where the loop variable `y` is only read the program is
accepted; where it is assigned to, the error is about `x` after the exchange. -/
theorem analyze_rename_swapped :
    let r : String → String := Equiv.swap "x" "y"
    let loop (body : List Stmt) : List Stmt :=
      [.declare ⟨.bool, ⟨0, 4⟩⟩ ⟨"x", ⟨5, 6⟩⟩ (.bool true ⟨9, 13⟩),
        .each ⟨"y", ⟨18, 19⟩⟩ (.array [.ident "x" ⟨24, 25⟩] ⟨23, 26⟩) body ⟨14, 35⟩]
    let accepted := loop [.print (.ident "y" ⟨30, 31⟩) ⟨29, 33⟩]
    let refused := loop [.assign ⟨"y", ⟨29, 30⟩⟩ .set ⟨31, 32⟩ (.ident "x" ⟨33, 34⟩)]
    Function.Injective r ∧
      (analyze (Stmt.renameAll r accepted)).1.map Core.Program.entities =
        .ok ⟨[⟨"y", .bool, false⟩, ⟨"x", .bool, true⟩], []⟩ ∧
      analyze (Stmt.renameAll r refused) =
        (.error ⟨.readOnly "x", ⟨29, 30⟩⟩, [.enterEach "x"]) := by
  intro r loop accepted refused
  have hr : Function.Injective r := (Equiv.swap "x" "y").injective
  rw [analyze_rename r accepted hr.injOn, analyze_rename r refused hr.injOn]
  exact ⟨hr, rfl, rfl⟩

end Analysis
end Barista
