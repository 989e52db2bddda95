import Barista.Compile

/-!
# What an analysis has done

Analysis is a chain of checks, each of which may end it.  Here every step is taken apart once: what
must have held, and what the state has become, when an expression or a statement was accepted, and
which check was the one that failed when it was not.  The log of events plays no part in either.
-/

namespace Barista
namespace Analysis

open Barista.Core (VarId FunId Entity Variable Function Entities Program)

variable {α β : Type}

/-! ## Sequences of checks -/

theorem except_bind_eq_ok {ε : Type} {x : Except ε α} {f : α → Except ε β} {b : β} :
    (x >>= f) = .ok b ↔ ∃ a, x = .ok a ∧ f a = .ok b := by
  cases x <;> simp [bind, Except.bind]

theorem except_bind_eq_error {ε : Type} {x : Except ε α} {f : α → Except ε β} {e : ε} :
    (x >>= f) = .error e ↔ x = .error e ∨ ∃ a, x = .ok a ∧ f a = .error e := by
  cases x <;> simp [bind, Except.bind]

namespace Check

/-- The check ends the analysis with this error. -/
def Fails (x : Check α) (s : State) (e : SemanticError) : Prop :=
  ∃ s', x s = .error e s'

theorem bind_eq_ok {x : Check α} {f : α → Check β} {s t : State} {b : β} :
    (x >>= f) s = .ok b t ↔ ∃ a s', x s = .ok a s' ∧ f a s' = .ok b t := by
  simp only [bind, EStateM.bind]
  cases h : x s with
  | ok a s' =>
      constructor
      · intro hf
        exact ⟨a, s', rfl, hf⟩
      · rintro ⟨a', s'', hx, hf⟩
        cases hx
        exact hf
  | error e s' => simp

theorem bind_fails_iff {x : Check α} {f : α → Check β} {s : State} {e : SemanticError} :
    Fails (x >>= f) s e ↔ Fails x s e ∨ ∃ a s', x s = .ok a s' ∧ Fails (f a) s' e := by
  simp only [Fails, bind, EStateM.bind]
  cases h : x s with
  | ok a s' =>
      constructor
      · intro hf
        exact .inr ⟨a, s', rfl, hf⟩
      · rintro (⟨s'', hx⟩ | ⟨a', s'', hx, hf⟩)
        · cases hx
        · cases hx
          exact hf
  | error e' s' => simp

theorem pure_eq_ok {s t : State} {a b : α} : (pure a : Check α) s = .ok b t ↔ a = b ∧ s = t := by
  simp [pure, EStateM.pure]

theorem not_pure_fails {s : State} {a : α} {e : SemanticError} :
    ¬ Fails (pure a : Check α) s e := by
  rintro ⟨s', h⟩
  cases h

theorem fail_ne_ok {cause : Cause} {span : Span} {s t : State} {a : α} :
    (fail cause span : Check α) s ≠ .ok a t := by
  intro h
  cases h

theorem fail_fails_iff {cause : Cause} {span : Span} {s : State} {e : SemanticError} :
    Fails (fail cause span : Check α) s e ↔ e = ⟨cause, span⟩ := by
  constructor
  · rintro ⟨s', h⟩
    cases h
    rfl
  · rintro rfl
    exact ⟨s, rfl⟩

theorem fail_bind_ne_ok {cause : Cause} {span : Span} {f : α → Check β} {s t : State} {b : β} :
    ((fail cause span : Check α) >>= f) s ≠ .ok b t := by
  intro h
  cases h

theorem fail_bind_fails_iff {cause : Cause} {span : Span} {f : α → Check β} {s : State}
    {e : SemanticError} :
    Fails ((fail cause span : Check α) >>= f) s e ↔ e = ⟨cause, span⟩ := by
  rw [bind_fails_iff, fail_fails_iff]
  constructor
  · rintro (h | ⟨a, s', h, -⟩)
    · exact h
    · exact (fail_ne_ok h).elim
  · exact .inl

theorem within_eq_ok {check : Env → Except SemanticError α} {s t : State} {a : α} :
    within check s = .ok a t ↔ check s.env = .ok a ∧ s = t := by
  simp only [within]
  cases check s.env <;> simp

theorem within_fails_iff {check : Env → Except SemanticError α} {s : State} {e : SemanticError} :
    Fails (within check) s e ↔ check s.env = .error e := by
  simp only [Fails, within]
  cases check s.env <;> simp

theorem report_eq_ok {event : Event} {s t : State} {u : Unit} :
    report event s = .ok u t ↔ { s with log := s.log ++ [event] } = t := by
  constructor
  · intro h
    cases h
    rfl
  · rintro rfl
    rfl

theorem not_report_fails {event : Event} {s : State} {e : SemanticError} :
    ¬ Fails (report event) s e := by
  rintro ⟨s', h⟩
  cases h

theorem addVariable_eq_ok {v : Variable} {s t : State} {id : VarId} :
    addVariable v s = .ok id t ↔
      s.entities.nextVariable = id ∧ { s with entities := s.entities.addVariable v } = t := by
  simp [addVariable]

theorem not_addVariable_fails {v : Variable} {s : State} {e : SemanticError} :
    ¬ Fails (addVariable v) s e := by
  rintro ⟨s', h⟩
  cases h

theorem addFunction_eq_ok {f : Function} {s t : State} {id : FunId} :
    addFunction f s = .ok id t ↔
      s.entities.nextFunction = id ∧ { s with entities := s.entities.addFunction f } = t := by
  simp [addFunction]

theorem not_addFunction_fails {f : Function} {s : State} {e : SemanticError} :
    ¬ Fails (addFunction f) s e := by
  rintro ⟨s', h⟩
  cases h

theorem declare_eq_ok {name : Surface.Name} {entity : Entity} {s t : State} {u : Unit} :
    Check.declare name entity s = .ok u t ↔
      s.scope.declares name.text = false ∧
        { s with scope := s.scope.declare name.text entity } = t := by
  simp only [Check.declare]
  split
  · rename_i h
    simp [h]
  · rename_i h
    simp [h]

theorem declare_fails_iff {name : Surface.Name} {entity : Entity} {s : State}
    {e : SemanticError} :
    Fails (Check.declare name entity) s e ↔
      s.scope.declares name.text = true ∧ e = ⟨.alreadyDeclared name.text, name.span⟩ := by
  simp only [Fails, Check.declare]
  split
  · rename_i h
    simp [h, eq_comm]
  · rename_i h
    simp [h]

theorem nested_eq_ok {check : Check α} {s t : State} {a : α} :
    nested check s = .ok a t ↔
      ∃ s', check { s with scope := s.scope.enter } = .ok a s' ∧
        { s' with scope := s.scope } = t := by
  simp only [nested]
  cases check { s with scope := s.scope.enter } with
  | ok a' s' =>
      constructor
      · intro h
        cases h
        exact ⟨s', rfl, rfl⟩
      · rintro ⟨s'', h, rfl⟩
        cases h
        rfl
  | error e s' => simp

theorem nested_fails_iff {check : Check α} {s : State} {e : SemanticError} :
    Fails (nested check) s e ↔ Fails check { s with scope := s.scope.enter } e := by
  simp only [Fails, nested]
  cases check { s with scope := s.scope.enter } <;> simp

end Check

open Check

/-! ## Expressions -/

namespace Env

theorem resolveVariable_eq_ok {env : Env} {name : String} {span : Span} {id : VarId} :
    env.resolveVariable name span = .ok id ↔ env.scope.lookup? name = some (.variable id) := by
  simp only [resolveVariable]
  split <;> simp_all

theorem resolveFunction_eq_ok {env : Env} {name : String} {span : Span} {id : FunId} :
    env.resolveFunction name span = .ok id ↔ env.scope.lookup? name = some (.function id) := by
  simp only [resolveFunction]
  split <;> simp_all

theorem requireBool_eq_ok {env : Env} {e : Core.Expr} {span : Span} {u : Unit} :
    env.requireBool e span = .ok u ↔ env.typeOf e = .bool := by
  simp only [requireBool]
  split <;> simp_all

theorem requireNumeric_eq_ok {env : Env} {e : Core.Expr} {span : Span} {u : Unit} :
    env.requireNumeric e span = .ok u ↔ (env.typeOf e).isNumeric = true := by
  simp only [requireNumeric]
  split <;> simp_all

theorem requireAssignable_eq_ok {env : Env} {target : Ty} {e : Core.Expr} {span : Span}
    {u : Unit} :
    env.requireAssignable target e span = .ok u ↔ target.accepts (env.typeOf e) = true := by
  simp only [requireAssignable]
  split <;> simp_all

theorem resolveCallee_eq_ok {env : Env} {callee : Surface.Name} {count : Nat} {span : Span}
    {f : FunId} :
    env.resolveCallee callee count span = .ok f ↔
      env.scope.lookup? callee.text = some (.function f) ∧
        count = (env.entities.paramsOf f).length := by
  simp only [resolveCallee, except_bind_eq_ok, resolveFunction_eq_ok]
  constructor
  · rintro ⟨g, hg, h⟩
    split at h
    · cases h
      exact ⟨hg, ‹_›⟩
    · cases h
  · rintro ⟨hf, hcount⟩
    exact ⟨f, hf, by rw [if_pos hcount]; rfl⟩

theorem condition_eq_ok {env : Env} {e : Surface.Expr} {c : Core.Expr} :
    env.condition e = .ok c ↔ env.expr none e = .ok c ∧ env.typeOf c = .bool := by
  simp only [condition, except_bind_eq_ok, requireBool_eq_ok]
  constructor
  · rintro ⟨c', hc, -, ht, h⟩
    cases h
    exact ⟨hc, ht⟩
  · rintro ⟨hc, ht⟩
    exact ⟨c, hc, (), ht, rfl⟩

/-- The ways in which an expression is accepted. -/
inductive Accepts (env : Env) (hint : Option Ty) : Surface.Expr → Core.Expr → Prop
  | int {value span} : Accepts env hint (.int value span) (.int value)
  | double {value span} : Accepts env hint (.double value span) (.double value)
  | bool {value span} : Accepts env hint (.bool value span) (.bool value)
  | string {value span} : Accepts env hint (.string value span) (.string value)
  | ident {name span id} (hfound : env.scope.lookup? name = some (.variable id)) :
      Accepts env hint (.ident name span) (.var id)
  | arithmetic {op l r span left right} (hop : op.isArithmetic = true)
      (hleft : env.expr none l = .ok left) (hright : env.expr none r = .ok right)
      (hl : (env.typeOf left).isNumeric = true) (hr : (env.typeOf right).isNumeric = true) :
      Accepts env hint (.binary op l r span) (.binary op left right (env.typeOf left))
  | logical {op l r span left right} (hop : op.isLogical = true)
      (hleft : env.expr none l = .ok left) (hright : env.expr none r = .ok right)
      (hl : env.typeOf left = .bool) (hr : env.typeOf right = .bool) :
      Accepts env hint (.binary op l r span) (.binary op left right .bool)
  | comparison {op l r span left right} (hop : op.isArithmetic = false)
      (hop' : op.isLogical = false)
      (hleft : env.expr none l = .ok left) (hright : env.expr none r = .ok right) :
      Accepts env hint (.binary op l r span) (.binary op left right .bool)
  | not {e span operand} (he : env.expr none e = .ok operand) (ht : env.typeOf operand = .bool) :
      Accepts env hint (.unary .not e span) (.unary .not operand .bool)
  | neg {e span operand} (he : env.expr none e = .ok operand) :
      Accepts env hint (.unary .neg e span) (.unary .neg operand (env.typeOf operand))
  | ternary {t y n span test yes no} (ht : env.expr none t = .ok test)
      (hbool : env.typeOf test = .bool) (hy : env.expr hint y = .ok yes)
      (hn : env.expr hint n = .ok no) (hsame : env.typeOf no = env.typeOf yes) :
      Accepts env hint (.ternary t y n span) (.ternary test yes no (env.typeOf yes))
  | call {callee args openParen span f values}
      (hfound : env.scope.lookup? callee.text = some (.function f))
      (hcount : args.length = (env.entities.paramsOf f).length)
      (hargs : env.exprs (env.paramHints f) args = .ok values) :
      Accepts env hint (.call callee args openParen span)
        (.call f values (env.entities.resultOf f))
  | index {a i span array position element} (ha : env.expr none a = .ok array)
      (harray : env.typeOf array = .array element) (hi : env.expr none i = .ok position)
      (hint' : env.typeOf position = .int) :
      Accepts env hint (.index a i span) (.index array position element)
  | array {items span values}
      (hitems :
        env.exprs (List.replicate items.length (hint.bind Ty.element?)) items = .ok values) :
      Accepts env hint (.array items span) (.array values (env.arrayType hint values))

theorem accepts_binary {env : Env} {hint : Option Ty} {op : BinaryOp} {l r : Surface.Expr}
    {span : Span} {c : Core.Expr} (h : env.expr hint (.binary op l r span) = .ok c) :
    Accepts env hint (.binary op l r span) c := by
  rw [expr] at h
  simp only [except_bind_eq_ok] at h
  obtain ⟨left, hleft, right, hright, h⟩ := h
  split at h
  · rename_i hop
    simp only [except_bind_eq_ok, requireNumeric_eq_ok] at h
    obtain ⟨-, hl, -, hr, h⟩ := h
    cases h
    exact .arithmetic hop hleft hright hl hr
  · rename_i hop
    split at h
    · rename_i hop'
      simp only [except_bind_eq_ok, requireBool_eq_ok] at h
      obtain ⟨-, hl, -, hr, h⟩ := h
      cases h
      exact .logical hop' hleft hright hl hr
    · rename_i hop'
      cases h
      exact .comparison (by simpa using hop) (by simpa using hop') hleft hright

theorem accepts_of_expr {env : Env} {hint : Option Ty} {e : Surface.Expr} {c : Core.Expr}
    (h : env.expr hint e = .ok c) : Accepts env hint e c := by
  cases e with
  | int value span => rw [expr] at h; cases h; exact .int
  | double value span => rw [expr] at h; cases h; exact .double
  | bool value span => rw [expr] at h; cases h; exact .bool
  | string value span => rw [expr] at h; cases h; exact .string
  | ident name span =>
      rw [expr] at h
      simp only [except_bind_eq_ok, resolveVariable_eq_ok] at h
      obtain ⟨id, hid, h⟩ := h
      cases h
      exact .ident hid
  | binary op l r span => exact accepts_binary h
  | unary op e span =>
      cases op with
      | not =>
          rw [expr] at h
          simp only [except_bind_eq_ok, requireBool_eq_ok] at h
          obtain ⟨operand, he, -, ht, h⟩ := h
          cases h
          exact .not he ht
      | neg =>
          rw [expr] at h
          simp only [except_bind_eq_ok] at h
          obtain ⟨operand, he, h⟩ := h
          cases h
          exact .neg he
  | ternary t y n span =>
      rw [expr] at h
      simp only [except_bind_eq_ok, requireBool_eq_ok] at h
      obtain ⟨test, ht, -, hbool, yes, hy, no, hn, h⟩ := h
      split at h
      · cases h
        exact .ternary ht hbool hy hn ‹_›
      · cases h
  | call callee args openParen span =>
      rw [expr] at h
      simp only [except_bind_eq_ok, resolveCallee_eq_ok] at h
      obtain ⟨f, ⟨hf, hcount⟩, values, hvalues, h⟩ := h
      cases h
      exact .call hf hcount hvalues
  | index a i span =>
      rw [expr] at h
      simp only [except_bind_eq_ok] at h
      obtain ⟨array, ha, h⟩ := h
      split at h
      · simp only [except_bind_eq_ok] at h
        obtain ⟨position, hi, h⟩ := h
        split at h
        · cases h
          exact .index ha ‹_› hi ‹_›
        · cases h
      · cases h
  | array items span =>
      rw [expr] at h
      simp only [except_bind_eq_ok] at h
      obtain ⟨values, hvalues, h⟩ := h
      cases h
      exact .array hvalues

theorem exprs_nil_eq_ok {env : Env} {hints : List (Option Ty)} {values : List Core.Expr} :
    env.exprs hints [] = .ok values ↔ values = [] := by
  rw [exprs]
  simp [eq_comm]

theorem exprs_cons_eq_ok {env : Env} {hints : List (Option Ty)} {e : Surface.Expr}
    {es : List Surface.Expr} {values : List Core.Expr} :
    env.exprs hints (e :: es) = .ok values ↔
      ∃ first others, env.expr (hints.head?.getD none) e = .ok first ∧
        env.exprs hints.tail es = .ok others ∧ values = first :: others := by
  rw [exprs]
  simp only [except_bind_eq_ok]
  constructor
  · rintro ⟨first, hfirst, others, hothers, h⟩
    cases h
    exact ⟨first, others, hfirst, hothers, rfl⟩
  · rintro ⟨first, others, hfirst, hothers, rfl⟩
    exact ⟨first, hfirst, others, hothers, rfl⟩

theorem length_of_exprs {env : Env} {hints : List (Option Ty)} {es : List Surface.Expr}
    {values : List Core.Expr} (h : env.exprs hints es = .ok values) :
    values.length = es.length := by
  induction es generalizing hints values with
  | nil => rw [exprs_nil_eq_ok.1 h]; rfl
  | cons e es ih =>
      obtain ⟨first, others, -, hothers, rfl⟩ := exprs_cons_eq_ok.1 h
      rw [List.length_cons, List.length_cons, ih hothers]

end Env

/-! ## Parameters -/

def paramVariable (p : Surface.Param) : Variable :=
  ⟨p.name.text, paramType p, true⟩

/-- The indices that parameters get when they are the next variables. -/
def paramIds (entities : Entities) (params : List Surface.Param) : List VarId :=
  (List.range' entities.vars.length params.length).map VarId.mk

def addParamVariables (entities : Entities) (params : List Surface.Param) : Entities :=
  { entities with vars := entities.vars ++ params.map paramVariable }

theorem addParams_eq_ok {params : List Surface.Param} {s s' : State} {ids : List VarId}
    (h : addParams params s = .ok ids s') :
    (∀ p ∈ params, paramType p ≠ .void) ∧ ids = paramIds s.entities params ∧
      s' = { s with entities := addParamVariables s.entities params } := by
  induction params generalizing s ids with
  | nil =>
      cases h
      simp [paramIds, addParamVariables]
  | cons p ps ih =>
      rw [addParams] at h
      split at h
      · exact (fail_bind_ne_ok h).elim
      · rename_i hp
        simp only [bind_eq_ok, addVariable_eq_ok, pure_eq_ok] at h
        obtain ⟨id, s₁, ⟨rfl, rfl⟩, rest, s₂, hrest, rfl, rfl⟩ := h
        obtain ⟨hvoid, rfl, rfl⟩ := ih hrest
        refine ⟨List.forall_mem_cons.2 ⟨hp, hvoid⟩, ?_, ?_⟩
        · simp [paramIds, Entities.nextVariable, Entities.addVariable, List.range'_succ]
        · simp [addParamVariables, Entities.addVariable, paramVariable]

theorem addParams_fails {params : List Surface.Param} {s : State} {e : SemanticError}
    (h : Fails (addParams params) s e) : e.cause = .voidVariable := by
  induction params generalizing s with
  | nil => exact (not_pure_fails h).elim
  | cons p ps ih =>
      rw [addParams] at h
      split at h
      · rw [fail_bind_fails_iff.1 h]
      · rcases bind_fails_iff.1 h with hadd | ⟨id, s₁, -, h⟩
        · exact (not_addVariable_fails hadd).elim
        · rcases bind_fails_iff.1 h with hrest | ⟨ids, s₂, -, h⟩
          · exact ih hrest
          · exact (not_pure_fails h).elim

theorem declareParams_cons_eq_ok {p : Surface.Param} {ps : List Surface.Param} {id : VarId}
    {ids : List VarId} {s t : State} {u : Unit} :
    declareParams (p :: ps) (id :: ids) s = .ok u t ↔
      s.scope.declares p.name.text = false ∧
        declareParams ps ids { s with scope := s.scope.declare p.name.text (.variable id) } =
          .ok u t := by
  rw [declareParams]
  simp only [bind_eq_ok, declare_eq_ok]
  constructor
  · rintro ⟨-, s', ⟨hnew, rfl⟩, h⟩
    exact ⟨hnew, h⟩
  · rintro ⟨hnew, h⟩
    exact ⟨(), _, ⟨hnew, rfl⟩, h⟩

theorem declareParams_nil_eq_ok {s t : State} {u : Unit} :
    declareParams [] [] s = .ok u t ↔ s = t := by
  simp only [declareParams, pure_eq_ok, true_and]

theorem declareParams_cons_fails_iff {p : Surface.Param} {ps : List Surface.Param} {id : VarId}
    {ids : List VarId} {s : State} {e : SemanticError} :
    Fails (declareParams (p :: ps) (id :: ids)) s e ↔
      (s.scope.declares p.name.text = true ∧
          e = ⟨.alreadyDeclared p.name.text, p.name.span⟩) ∨
        s.scope.declares p.name.text = false ∧
          Fails (declareParams ps ids)
            { s with scope := s.scope.declare p.name.text (.variable id) } e := by
  rw [declareParams]
  simp only [bind_fails_iff, declare_fails_iff, declare_eq_ok]
  constructor
  · rintro (h | ⟨-, s', ⟨hnew, rfl⟩, h⟩)
    · exact .inl h
    · exact .inr ⟨hnew, h⟩
  · rintro (h | ⟨hnew, h⟩)
    · exact .inl h
    · exact .inr ⟨(), _, ⟨hnew, rfl⟩, h⟩

theorem entities_of_declareParams {params : List Surface.Param} {ids : List VarId} {s t : State}
    {u : Unit} (h : declareParams params ids s = .ok u t) : t.entities = s.entities := by
  induction params generalizing ids s with
  | nil => cases ids <;> cases h <;> rfl
  | cons p ps ih =>
      cases ids with
      | nil => cases h; rfl
      | cons id ids =>
          have hrest := (declareParams_cons_eq_ok.1 h).2
          exact (ih hrest).trans rfl

/-! ## Statements -/

/-- The entities when the body of a function is analyzed. -/
def withFunction (entities : Entities) (name : Surface.Name) (params : List Surface.Param)
    (type : Surface.TypeName) : Entities :=
  (addParamVariables entities params).addFunction
    ⟨name.text, type.type, paramIds entities params⟩

/-- The variable that an assignment changes; an index without a variable stands for one of type
`void`. -/
def assignTarget (entities : Entities) (id : VarId) : Variable :=
  (entities.findVariable? id).getD ⟨"", .void, false⟩

/-- The ways in which a statement is accepted, with the state before and after it. -/
inductive Accepts (result : Option Ty) (s : State) : Surface.Stmt → Core.Stmt → State → Prop
  | declare {type name init value s'} (hvoid : type.type ≠ .void)
      (hvalue : s.env.expr (some type.type) init = .ok value)
      (haccepts : type.type.accepts (s.env.typeOf value) = true)
      (hnew : s.scope.declares name.text = false)
      (hentities : s'.entities = s.entities.addVariable ⟨name.text, type.type, false⟩)
      (hscope : s'.scope = s.scope.declare name.text (.variable s.entities.nextVariable)) :
      Accepts result s (.declare type name init) (.declare s.entities.nextVariable value) s'
  | function {name params type body core s₁ s₂ s₃ s'}
      (hvoid : ∀ p ∈ params, paramType p ≠ .void)
      (hnew : s.scope.declares name.text = false)
      (hentities₁ : s₁.entities = withFunction s.entities name params type)
      (hscope₁ : s₁.scope =
        (s.scope.declare name.text (.function s.entities.nextFunction)).enter)
      (hparams : declareParams params (paramIds s.entities params) s₁ = .ok () s₂)
      (hbody : block (some type.type) body s₂ = .ok core s₃)
      (hentities : s'.entities = s₃.entities)
      (hscope : s'.scope = s.scope.declare name.text (.function s.entities.nextFunction)) :
      Accepts result s (.function name params type body)
        (.function s.entities.nextFunction core) s'
  | assign {target op opSpan e id value}
      (hfound : s.scope.lookup? target.text = some (.variable id))
      (hwritable : (assignTarget s.entities id).readOnly = false)
      (hvalue : s.env.expr (some (assignTarget s.entities id).type) e = .ok value)
      (hcompound : op.isCompound = true →
        (assignTarget s.entities id).type.isNumeric = true ∧
          (s.env.typeOf value).isNumeric = true)
      (hplain : op.isCompound = false →
        (assignTarget s.entities id).type.accepts (s.env.typeOf value) = true) :
      Accepts result s (.assign target op opSpan e) (.assign id op value) s
  | print {e span value} (hvalue : s.env.expr none e = .ok value) :
      Accepts result s (.print e span) (.print value) s
  | cond {test body rest span c b r s₁ s'} (htest : s.env.expr none test = .ok c)
      (hbool : s.env.typeOf c = .bool) (hbody : block result body s = .ok b s₁)
      (hrest : chain result rest s₁ = .ok r s') :
      Accepts result s (.cond test body rest span) (.cond c b r) s'
  | loop {test body span c b s₁ s₂ s'} (htest : s.env.expr none test = .ok c)
      (hbool : s.env.typeOf c = .bool)
      (hentities₁ : s₁.entities = s.entities) (hscope₁ : s₁.scope = s.scope.enter)
      (hbody : block result body s₁ = .ok b s₂)
      (hentities : s'.entities = s₂.entities) (hscope : s'.scope = s.scope) :
      Accepts result s (.loop test body span) (.loop c b) s'
  | each {iterator collection body span value element b s₁ s₂ s'}
      (hvalue : s.env.expr none collection = .ok value)
      (helement : elementType? (s.env.typeOf value) = some element)
      (hentities₁ : s₁.entities = s.entities.addVariable ⟨iterator.text, element, true⟩)
      (hscope₁ : s₁.scope =
        s.scope.enter.declare iterator.text (.variable s.entities.nextVariable))
      (hbody : block result body s₁ = .ok b s₂)
      (hentities : s'.entities = s₂.entities) (hscope : s'.scope = s.scope) :
      Accepts result s (.each iterator collection body span)
        (.each s.entities.nextVariable value b) s'
  | stop {span} (hresult : result = some .void) : Accepts result s (.ret none span) (.ret none) s
  | ret {e span type value} (hresult : result = some type) (hvoid : type ≠ .void)
      (hvalue : s.env.expr (some type) e = .ok value)
      (haccepts : type.accepts (s.env.typeOf value) = true) :
      Accepts result s (.ret (some e) span) (.ret (some value)) s
  | call {callee args openParen f values}
      (hfound : s.scope.lookup? callee.text = some (.function f))
      (hcount : args.length = (s.entities.paramsOf f).length)
      (hargs : s.env.exprs (s.env.paramHints f) args = .ok values) :
      Accepts result s (.call callee args openParen)
        (.call f values (s.entities.resultOf f)) s

theorem accepts_declare {result : Option Ty} {type : Surface.TypeName} {name : Surface.Name}
    {init : Surface.Expr} {s s' : State} {c : Core.Stmt}
    (h : stmt result (.declare type name init) s = .ok c s') :
    Accepts result s (.declare type name init) c s' := by
  rw [stmt] at h
  split at h
  · exact (fail_bind_ne_ok h).elim
  · rename_i hvoid
    simp only [bind_eq_ok, within_eq_ok, addVariable_eq_ok, declare_eq_ok, pure_eq_ok,
      Env.requireAssignable_eq_ok] at h
    obtain ⟨value, _, ⟨hvalue, rfl⟩, -, _, ⟨haccepts, rfl⟩, id, _, ⟨rfl, rfl⟩, -, _,
      ⟨hnew, rfl⟩, rfl, rfl⟩ := h
    exact .declare hvoid hvalue haccepts hnew rfl rfl

theorem accepts_function {result : Option Ty} {name : Surface.Name}
    {params : List Surface.Param} {type : Surface.TypeName} {body : List Surface.Stmt}
    {s s' : State} {c : Core.Stmt}
    (h : stmt result (.function name params type body) s = .ok c s') :
    Accepts result s (.function name params type body) c s' := by
  rw [stmt] at h
  simp only [bind_eq_ok, addFunction_eq_ok, declare_eq_ok, report_eq_ok, nested_eq_ok,
    pure_eq_ok] at h
  obtain ⟨ids, _, hids, id, _, ⟨rfl, rfl⟩, -, _, ⟨hnew, rfl⟩, -, _, rfl, core, _,
    ⟨s₃, ⟨_, s₂, hparams, hbody⟩, rfl⟩, -, _, rfl, rfl, rfl⟩ := h
  obtain ⟨hvoid, rfl, rfl⟩ := addParams_eq_ok hids
  exact .function hvoid hnew rfl rfl hparams hbody rfl rfl

theorem accepts_assign {result : Option Ty} {target : Surface.Name} {op : AssignOp}
    {opSpan : Span} {e : Surface.Expr} {s s' : State} {c : Core.Stmt}
    (h : stmt result (.assign target op opSpan e) s = .ok c s') :
    Accepts result s (.assign target op opSpan e) c s' := by
  rw [stmt] at h
  simp only [assigned, bind_eq_ok, within_eq_ok, pure_eq_ok, Env.resolveVariable_eq_ok] at h
  obtain ⟨⟨id, value⟩, _, ⟨id', _, ⟨hfound, rfl⟩, v, _, ⟨hv, rfl⟩, h⟩, rfl, rfl⟩ := h
  cases hv
  split at h
  · exact (fail_bind_ne_ok h).elim
  · rename_i hwritable
    simp only [bind_eq_ok, within_eq_ok] at h
    obtain ⟨value', _, ⟨hvalue, rfl⟩, h⟩ := h
    split at h
    · rename_i hop
      split at h
      · exact (fail_bind_ne_ok h).elim
      · rename_i hnumeric
        simp only [bind_eq_ok, within_eq_ok, pure_eq_ok, Env.requireNumeric_eq_ok] at h
        obtain ⟨-, _, ⟨hsource, rfl⟩, hpair, rfl⟩ := h
        cases hpair
        refine .assign hfound (eq_false_of_ne_true hwritable) hvalue (fun _ ↦ ⟨?_, hsource⟩) ?_
        · simpa [assignTarget, State.env] using hnumeric
        · intro hplain
          rw [hop] at hplain
          cases hplain
    · rename_i hop
      simp only [bind_eq_ok, within_eq_ok, pure_eq_ok, Env.requireAssignable_eq_ok] at h
      obtain ⟨-, _, ⟨haccepts, rfl⟩, hpair, rfl⟩ := h
      cases hpair
      exact .assign hfound (eq_false_of_ne_true hwritable) hvalue (fun hc ↦ (hop hc).elim)
        (fun _ ↦ haccepts)

theorem accepts_each {result : Option Ty} {iterator : Surface.Name} {collection : Surface.Expr}
    {body : List Surface.Stmt} {span : Span} {s s' : State} {c : Core.Stmt}
    (h : stmt result (.each iterator collection body span) s = .ok c s') :
    Accepts result s (.each iterator collection body span) c s' := by
  rw [stmt] at h
  simp only [bind_eq_ok, within_eq_ok] at h
  obtain ⟨value, _, ⟨hvalue, rfl⟩, type, _, ⟨htype, rfl⟩, h⟩ := h
  cases htype
  cases helement : elementType? (s.env.typeOf value) with
  | none =>
      rw [helement] at h
      exact (fail_ne_ok h).elim
  | some element =>
      rw [helement] at h
      simp only [bind_eq_ok, addVariable_eq_ok, report_eq_ok, nested_eq_ok, declare_eq_ok,
        pure_eq_ok] at h
      obtain ⟨id, _, ⟨rfl, rfl⟩, -, _, rfl, b, _, ⟨s₂, ⟨-, _, ⟨-, rfl⟩, hbody⟩, rfl⟩, -, _, rfl,
        rfl, rfl⟩ := h
      refine .each hvalue helement ?_ ?_ hbody rfl rfl
      · rfl
      · rfl

theorem accepts_ret {result : Option Ty} {value : Option Surface.Expr} {span : Span}
    {s s' : State} {c : Core.Stmt} (h : stmt result (.ret value span) s = .ok c s') :
    Accepts result s (.ret value span) c s' := by
  rw [stmt] at h
  simp only [bind_eq_ok, pure_eq_ok] at h
  obtain ⟨given, _, h, rfl, rfl⟩ := h
  rw [returned.eq_def] at h
  split at h
  · exact (fail_ne_ok h).elim
  · obtain ⟨rfl, rfl⟩ := pure_eq_ok.1 h
    exact .stop rfl
  · exact (fail_ne_ok h).elim
  · exact (fail_ne_ok h).elim
  · rename_i type e hvoid
    simp only [bind_eq_ok, within_eq_ok] at h
    obtain ⟨c, _, ⟨hvalue, rfl⟩, found, _, ⟨hfound, rfl⟩, h⟩ := h
    cases hfound
    split at h
    · obtain ⟨rfl, rfl⟩ := pure_eq_ok.1 h
      exact .ret rfl hvoid hvalue ‹_›
    · exact (fail_ne_ok h).elim

theorem accepts_of_stmt {result : Option Ty} {st : Surface.Stmt} {s s' : State} {c : Core.Stmt}
    (h : stmt result st s = .ok c s') : Accepts result s st c s' := by
  cases st with
  | declare type name init => exact accepts_declare h
  | function name params type body => exact accepts_function h
  | assign target op opSpan e => exact accepts_assign h
  | print e span =>
      rw [stmt] at h
      simp only [bind_eq_ok, within_eq_ok, pure_eq_ok] at h
      obtain ⟨value, _, ⟨hvalue, rfl⟩, rfl, rfl⟩ := h
      exact .print hvalue
  | cond test body rest span =>
      rw [stmt] at h
      simp only [bind_eq_ok, within_eq_ok, pure_eq_ok, Env.condition_eq_ok] at h
      obtain ⟨c, _, ⟨⟨htest, hbool⟩, rfl⟩, b, _, hbody, r, _, hrest, rfl, rfl⟩ := h
      exact .cond htest hbool hbody hrest
  | loop test body span =>
      rw [stmt] at h
      simp only [bind_eq_ok, within_eq_ok, pure_eq_ok, Env.condition_eq_ok, report_eq_ok,
        nested_eq_ok] at h
      obtain ⟨c, _, ⟨⟨htest, hbool⟩, rfl⟩, -, _, rfl, b, _, ⟨s₂, hbody, rfl⟩, -, _, rfl, rfl,
        rfl⟩ := h
      refine .loop htest hbool ?_ ?_ hbody rfl rfl
      · rfl
      · rfl
  | each iterator collection body span => exact accepts_each h
  | ret value span => exact accepts_ret h
  | call callee args openParen =>
      rw [stmt] at h
      simp only [bind_eq_ok, within_eq_ok, pure_eq_ok, Env.resolveCallee_eq_ok] at h
      obtain ⟨f, _, ⟨⟨hfound, hcount⟩, rfl⟩, values, _, ⟨hargs, rfl⟩, type, _, ⟨htype, rfl⟩, rfl,
        rfl⟩ := h
      cases htype
      exact .call hfound hcount hargs

/-- The ways in which a function is rejected. -/
theorem function_fails {result : Option Ty} {name : Surface.Name} {params : List Surface.Param}
    {type : Surface.TypeName} {body : List Surface.Stmt} {s : State} {e : SemanticError}
    (h : Fails (stmt result (.function name params type body)) s e) :
    e.cause = .voidVariable ∨
      (s.scope.declares name.text = true ∧ e = ⟨.alreadyDeclared name.text, name.span⟩) ∨
      s.scope.declares name.text = false ∧
        ∃ s₁, s₁.entities = withFunction s.entities name params type ∧
          s₁.scope = (s.scope.declare name.text (.function s.entities.nextFunction)).enter ∧
          (Fails (declareParams params (paramIds s.entities params)) s₁ e ∨
            ∃ s₂, declareParams params (paramIds s.entities params) s₁ = .ok () s₂ ∧
              Fails (block (some type.type) body) s₂ e) := by
  rw [stmt] at h
  simp only [bind_fails_iff, addFunction_eq_ok, declare_fails_iff, declare_eq_ok, report_eq_ok,
    nested_fails_iff, not_addFunction_fails, not_report_fails, not_pure_fails, false_or,
    and_false, exists_false, or_false] at h
  rcases h with h | ⟨ids, _, hids, id, _, ⟨rfl, rfl⟩, h⟩
  · exact .inl (addParams_fails h)
  obtain ⟨-, rfl, rfl⟩ := addParams_eq_ok hids
  rcases h with h | ⟨-, _, ⟨hnew, rfl⟩, -, _, rfl, h⟩
  · exact .inr (.inl h)
  · refine .inr (.inr ⟨hnew, ?_⟩)
    rcases h with h | ⟨_, s₂, hparams, h⟩
    · refine ⟨_, ?_, ?_, .inl h⟩ <;> rfl
    · refine ⟨_, ?_, ?_, .inr ⟨s₂, hparams, h⟩⟩ <;> rfl

/-- The ways in which a loop with an iterator is rejected. -/
theorem each_fails {result : Option Ty} {iterator : Surface.Name} {collection : Surface.Expr}
    {body : List Surface.Stmt} {span : Span} {s : State} {e : SemanticError}
    (h : Fails (stmt result (.each iterator collection body span)) s e) :
    s.env.expr none collection = .error e ∨
      ∃ value, s.env.expr none collection = .ok value ∧
        (e.cause = .notIterable ∨
          ∃ s₁ v, s₁.entities = s.entities.addVariable v ∧
            s₁.scope =
              s.scope.enter.declare iterator.text (.variable s.entities.nextVariable) ∧
            Fails (block result body) s₁ e) := by
  rw [stmt] at h
  simp only [bind_fails_iff, within_fails_iff, within_eq_ok] at h
  rcases h with h | ⟨value, _, ⟨hvalue, rfl⟩, h | ⟨type, _, ⟨-, rfl⟩, h⟩⟩
  · exact .inl h
  · cases h
  · refine .inr ⟨value, hvalue, ?_⟩
    split at h
    · rw [fail_fails_iff.1 h]
      exact .inl rfl
    · rename_i element _
      simp only [bind_fails_iff, addVariable_eq_ok, report_eq_ok, nested_fails_iff,
        declare_fails_iff, declare_eq_ok, not_addVariable_fails, not_report_fails,
        not_pure_fails, false_or, and_false, exists_false, or_false] at h
      obtain ⟨id, _, ⟨rfl, rfl⟩, -, _, rfl, h⟩ := h
      rcases h with ⟨hold, -⟩ | ⟨-, _, ⟨-, rfl⟩, h⟩
      · cases hold
      · refine .inr ⟨_, ⟨iterator.text, element, true⟩, ?_, ?_, h⟩ <;> rfl

theorem block_nil_eq_ok {result : Option Ty} {s s' : State} {b : List Core.Stmt} :
    block result [] s = .ok b s' ↔ b = [] ∧ s' = s := by
  rw [block, pure_eq_ok]
  simp [eq_comm]

theorem block_cons_eq_ok {result : Option Ty} {st : Surface.Stmt} {rest : List Surface.Stmt}
    {s s' : State} {b : List Core.Stmt} :
    block result (st :: rest) s = .ok b s' ↔
      ∃ first s₁ others, stmt result st s = .ok first s₁ ∧
        block result rest s₁ = .ok others s' ∧ b = first :: others := by
  rw [block]
  simp only [bind_eq_ok, pure_eq_ok]
  constructor
  · rintro ⟨first, s₁, hfirst, others, _, hothers, rfl, rfl⟩
    exact ⟨first, s₁, others, hfirst, hothers, rfl⟩
  · rintro ⟨first, s₁, others, hfirst, hothers, rfl⟩
    exact ⟨first, s₁, hfirst, others, s', hothers, rfl, rfl⟩

/-- Blocks one after the other are analyzed one after the other. -/
theorem block_append_eq_ok {result : Option Ty} {a b : List Surface.Stmt} {s s' : State}
    {core : List Core.Stmt} :
    block result (a ++ b) s = .ok core s' ↔
      ∃ first s₁ others, block result a s = .ok first s₁ ∧
        block result b s₁ = .ok others s' ∧ core = first ++ others := by
  induction a generalizing s core with
  | nil =>
      simp only [List.nil_append, block_nil_eq_ok]
      constructor
      · intro h
        exact ⟨[], s, core, ⟨rfl, rfl⟩, h, rfl⟩
      · rintro ⟨_, _, others, ⟨rfl, rfl⟩, h, rfl⟩
        exact h
  | cons st a ih =>
      simp only [List.cons_append, block_cons_eq_ok, ih]
      constructor
      · rintro ⟨c, s₁, _, hst, ⟨cs, s₂, others, ha, hb, rfl⟩, rfl⟩
        exact ⟨c :: cs, s₂, others, ⟨c, s₁, cs, hst, ha, rfl⟩, hb, rfl⟩
      · rintro ⟨_, s₂, others, ⟨c, s₁, cs, hst, ha, rfl⟩, hb, rfl⟩
        exact ⟨c, s₁, cs ++ others, hst, ⟨cs, s₂, others, ha, hb, rfl⟩, rfl⟩

/-- The ways in which the branches behind a block are accepted. -/
inductive AcceptsChain (result : Option Ty) (s : State) :
    Surface.Chain → Core.Chain → State → Prop
  | finish : AcceptsChain result s .finish .finish s
  | otherwise {body b s'} (hbody : block result body s = .ok b s') :
      AcceptsChain result s (.otherwise body) (.otherwise b) s'
  | also {test body rest c b r s₁ s'} (htest : s.env.expr none test = .ok c)
      (hbool : s.env.typeOf c = .bool) (hbody : block result body s = .ok b s₁)
      (hrest : chain result rest s₁ = .ok r s') :
      AcceptsChain result s (.also test body rest) (.also c b r) s'

theorem acceptsChain_of_chain {result : Option Ty} {ch : Surface.Chain} {s s' : State}
    {c : Core.Chain} (h : chain result ch s = .ok c s') : AcceptsChain result s ch c s' := by
  cases ch with
  | finish =>
      rw [chain] at h
      obtain ⟨rfl, rfl⟩ := pure_eq_ok.1 h
      exact .finish
  | otherwise body =>
      rw [chain] at h
      simp only [bind_eq_ok, pure_eq_ok] at h
      obtain ⟨b, _, hbody, rfl, rfl⟩ := h
      exact .otherwise hbody
  | also test body rest =>
      rw [chain] at h
      simp only [bind_eq_ok, within_eq_ok, pure_eq_ok, Env.condition_eq_ok] at h
      obtain ⟨c, _, ⟨⟨htest, hbool⟩, rfl⟩, b, _, hbody, r, _, hrest, rfl, rfl⟩ := h
      exact .also htest hbool hbody hrest

/-! ## Programs -/

theorem analyze_eq_ok {statements : List Surface.Stmt} {p : Program} {log : List Event}
    (h : analyze statements = (.ok p, log)) :
    ∃ s, block none statements State.initial = .ok p.statements s ∧ s.entities = p.entities := by
  rw [analyze] at h
  split at h
  · rename_i core s hblock
    cases h
    exact ⟨s, hblock, rfl⟩
  · cases h

end Analysis

/-- A program text is accepted when it can be read and its statements are accepted. -/
theorem block_of_analyze {source : String} {p : Core.Program} (h : analyze source = .ok p) :
    ∃ statements s, Surface.parse source = .ok statements ∧
      Analysis.block none statements Analysis.State.initial = .ok p.statements s ∧
      s.entities = p.entities := by
  simp only [analyze, analyzeReporting] at h
  split at h
  · cases h
  · rename_i statements hparse
    split at h
    · cases h
    · rename_i program log hanalyze
      cases h
      obtain ⟨s, hblock, hentities⟩ := Analysis.analyze_eq_ok hanalyze
      exact ⟨statements, s, hparse, hblock, hentities⟩

theorem analyze_of_block {source : String} {statements : List Surface.Stmt}
    {core : List Core.Stmt} {s : Analysis.State} (hparse : Surface.parse source = .ok statements)
    (hblock : Analysis.block none statements Analysis.State.initial = .ok core s) :
    analyze source = .ok ⟨core, s.entities⟩ := by
  simp only [analyze, analyzeReporting, hparse, Analysis.analyze, hblock]

theorem exists_of_isOk {source : String} (h : (analyze source).toOption.isSome = true) :
    ∃ p, analyze source = .ok p := by
  cases hresult : analyze source with
  | ok p => exact ⟨p, rfl⟩
  | error e =>
      rw [hresult] at h
      cases h

/-- A property of the tree that can be decided is decided by analysis itself. -/
theorem exists_of_toOption {source : String} {P : Core.Program → Prop}
    (h : ∃ p ∈ (analyze source).toOption, P p) : ∃ p, analyze source = .ok p ∧ P p := by
  obtain ⟨p, hp, hP⟩ := h
  cases hresult : analyze source with
  | ok q =>
      rw [hresult] at hp
      cases hp
      exact ⟨p, rfl, hP⟩
  | error e =>
      rw [hresult] at hp
      cases hp

end Barista
