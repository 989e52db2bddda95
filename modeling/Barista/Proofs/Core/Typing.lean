import Barista.Core.Tree

/-!
# Typing rules

The rules of the language, read off a core tree and the table of entities alone.  An expression is
typed where a value of some type may be expected: that type settles the one of an array literal and
is handed on to the branches of a ternary, the elements of an array and, as the types of parameters,
the arguments of a call.
-/

namespace Barista
namespace Core

mutual

/-- The expression has the type where a value of type `hint`, if any, is expected. -/
inductive HasType (entities : Entities) : Option Ty → Expr → Ty → Prop
  | int {hint n} : HasType entities hint (.int n) .int
  | double {hint d} : HasType entities hint (.double d) .double
  | bool {hint b} : HasType entities hint (.bool b) .bool
  | string {hint s} : HasType entities hint (.string s) .string
  | var {hint id v} (hv : entities.findVariable? id = some v) :
      HasType entities hint (.var id) v.type
  | arithmetic {hint op l r a b} (hop : op.isArithmetic = true)
      (hl : HasType entities none l a) (hr : HasType entities none r b)
      (ha : a.isNumeric = true) (hb : b.isNumeric = true) :
      HasType entities hint (.binary op l r a) a
  | logical {hint op l r} (hop : op.isLogical = true)
      (hl : HasType entities none l .bool) (hr : HasType entities none r .bool) :
      HasType entities hint (.binary op l r .bool) .bool
  | comparison {hint op l r a b} (hop : op.isRelational = true)
      (hl : HasType entities none l a) (hr : HasType entities none r b) :
      HasType entities hint (.binary op l r .bool) .bool
  | not {hint e} (he : HasType entities none e .bool) :
      HasType entities hint (.unary .not e .bool) .bool
  | neg {hint e t} (he : HasType entities none e t) :
      HasType entities hint (.unary .neg e t) t
  | ternary {hint c y n t} (hc : HasType entities none c .bool)
      (hy : HasType entities hint y t) (hn : HasType entities hint n t) :
      HasType entities hint (.ternary c y n t) t
  | call {hint id f args} (hf : entities.findFunction? id = some f)
      (hcount : args.length = f.arity)
      (hargs : HaveTypes entities (f.params.map fun p ↦ some (entities.typeOf p)) args) :
      HasType entities hint (.call id args f.result) f.result
  | index {hint a i t} (ha : HasType entities none a (.array t))
      (hi : HasType entities none i .int) : HasType entities hint (.index a i t) t
  | expectedArray {items t}
      (hitems : HaveTypes entities (List.replicate items.length (some t)) items) :
      HasType entities (some (.array t)) (.array items (.array t)) (.array t)
  | array {hint first rest t} (hhint : hint.bind Ty.element? = none)
      (hfirst : HasType entities none first t)
      (hrest : HaveTypes entities (List.replicate rest.length none) rest) :
      HasType entities hint (.array (first :: rest) (.array t)) (.array t)
  | emptyArray {hint} (hhint : hint.bind Ty.element? = none) :
      HasType entities hint (.array [] (.array .void)) (.array .void)

/-- Each expression has a type where its own hint stands. -/
inductive HaveTypes (entities : Entities) : List (Option Ty) → List Expr → Prop
  | nil : HaveTypes entities [] []
  | cons {hint hints e es t} (he : HasType entities hint e t)
      (hes : HaveTypes entities hints es) : HaveTypes entities (hint :: hints) (e :: es)

end

mutual

/-- The statement obeys the rules in the body of `enclosing`, or outside of any function. -/
inductive StmtTyped (entities : Entities) : Option FunId → Stmt → Prop
  | declare {enclosing id v e t} (hv : entities.findVariable? id = some v)
      (hvoid : v.type ≠ .void) (he : HasType entities (some v.type) e t)
      (ht : v.type.accepts t = true) : StmtTyped entities enclosing (.declare id e)
  | assign {enclosing id v op e t} (hv : entities.findVariable? id = some v)
      (hwritable : v.readOnly = false) (hop : op.isCompound = false)
      (he : HasType entities (some v.type) e t) (ht : v.type.accepts t = true) :
      StmtTyped entities enclosing (.assign id op e)
  | compound {enclosing id v op e t} (hv : entities.findVariable? id = some v)
      (hwritable : v.readOnly = false) (hop : op.isCompound = true)
      (he : HasType entities (some v.type) e t) (htarget : v.type.isNumeric = true)
      (ht : t.isNumeric = true) : StmtTyped entities enclosing (.assign id op e)
  | print {enclosing e t} (he : HasType entities none e t) :
      StmtTyped entities enclosing (.print e)
  | cond {enclosing c body rest} (hc : HasType entities none c .bool)
      (hbody : BlockTyped entities enclosing body) (hrest : ChainTyped entities enclosing rest) :
      StmtTyped entities enclosing (.cond c body rest)
  | loop {enclosing c body} (hc : HasType entities none c .bool)
      (hbody : BlockTyped entities enclosing body) :
      StmtTyped entities enclosing (.loop c body)
  | count {enclosing id v e body} (hv : entities.findVariable? id = some v)
      (hreadOnly : v.readOnly = true) (htype : v.type = .int) (he : HasType entities none e .int)
      (hbody : BlockTyped entities enclosing body) :
      StmtTyped entities enclosing (.each id e body)
  | elements {enclosing id v e body} (hv : entities.findVariable? id = some v)
      (hreadOnly : v.readOnly = true) (he : HasType entities none e (.array v.type))
      (hbody : BlockTyped entities enclosing body) :
      StmtTyped entities enclosing (.each id e body)
  | stop {id f} (hf : entities.findFunction? id = some f) (hvoid : f.result = .void) :
      StmtTyped entities (some id) (.ret none)
  | ret {id f e t} (hf : entities.findFunction? id = some f) (hvoid : f.result ≠ .void)
      (he : HasType entities (some f.result) e t) (ht : f.result.accepts t = true) :
      StmtTyped entities (some id) (.ret (some e))
  | function {enclosing id f body} (hf : entities.findFunction? id = some f)
      (hparams : ∀ p ∈ f.params, ∃ v, entities.findVariable? p = some v ∧
        v.type ≠ .void ∧ v.readOnly = true)
      (hbody : BlockTyped entities (some id) body) :
      StmtTyped entities enclosing (.function id body)
  | call {enclosing id args t} (hcall : HasType entities none (.call id args t) t) :
      StmtTyped entities enclosing (.call id args t)

inductive BlockTyped (entities : Entities) : Option FunId → List Stmt → Prop
  | nil {enclosing} : BlockTyped entities enclosing []
  | cons {enclosing s rest} (hs : StmtTyped entities enclosing s)
      (hrest : BlockTyped entities enclosing rest) : BlockTyped entities enclosing (s :: rest)

inductive ChainTyped (entities : Entities) : Option FunId → Chain → Prop
  | finish {enclosing} : ChainTyped entities enclosing .finish
  | otherwise {enclosing body} (hbody : BlockTyped entities enclosing body) :
      ChainTyped entities enclosing (.otherwise body)
  | also {enclosing c body rest} (hc : HasType entities none c .bool)
      (hbody : BlockTyped entities enclosing body) (hrest : ChainTyped entities enclosing rest) :
      ChainTyped entities enclosing (.also c body rest)

end

/-- The statements of a program stand outside of any function. -/
def Program.Typed (p : Program) : Prop :=
  BlockTyped p.entities none p.statements

/-- An expression has no type but the one it carries. -/
theorem HasType.type_eq {entities : Entities} {hint : Option Ty} {e : Expr} {t : Ty}
    (h : HasType entities hint e t) : e.type entities = t := by
  cases h with
  | var hv => rw [Expr.type, Entities.typeOf, hv]
  | _ => rfl

/-! ## Operands of typed expressions -/

namespace HasType

variable {entities : Entities} {hint : Option Ty} {t type : Ty}

theorem binary_operands {op : BinaryOp} {l r : Expr}
    (h : HasType entities hint (.binary op l r type) t) :
    (∃ a, HasType entities none l a) ∧ ∃ b, HasType entities none r b := by
  cases h with
  | arithmetic _ hl hr => exact ⟨⟨_, hl⟩, _, hr⟩
  | logical _ hl hr => exact ⟨⟨_, hl⟩, _, hr⟩
  | comparison _ hl hr => exact ⟨⟨_, hl⟩, _, hr⟩

theorem unary_operand {op : UnaryOp} {e : Expr}
    (h : HasType entities hint (.unary op e type) t) : HasType entities none e type := by
  cases h with
  | not he => exact he
  | neg he => exact he

theorem ternary_operands {c y n : Expr} (h : HasType entities hint (.ternary c y n type) t) :
    HasType entities none c .bool ∧ HasType entities hint y type ∧
      HasType entities hint n type := by
  cases h with
  | ternary hc hy hn => exact ⟨hc, hy, hn⟩

theorem call_operands {callee : FunId} {args : List Expr}
    (h : HasType entities hint (.call callee args type) t) :
    ∃ hints, HaveTypes entities hints args := by
  cases h with
  | call _ _ hargs => exact ⟨_, hargs⟩

theorem index_operands {a i : Expr} (h : HasType entities hint (.index a i type) t) :
    HasType entities none a (.array type) ∧ HasType entities none i .int := by
  cases h with
  | index ha hi => exact ⟨ha, hi⟩

theorem array_operands {items : List Expr} (h : HasType entities hint (.array items type) t) :
    ∃ hints, HaveTypes entities hints items := by
  cases h with
  | expectedArray hitems => exact ⟨_, hitems⟩
  | array _ hfirst hrest => exact ⟨_, .cons hfirst hrest⟩
  | emptyArray _ => exact ⟨_, .nil⟩

end HasType

end Core
end Barista
