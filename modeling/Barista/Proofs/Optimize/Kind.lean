import Barista.Proofs.Core.Part
import Barista.Proofs.Optimize.Occurrence
import Barista.Proofs.Analysis.LexicalScope
import Barista.Script.Tree

/-!
# Kinds of types under optimization

Optimization may turn an `int` into a `double` or back, because a quotient of whole numbers need not
be whole and an identity may keep the operand of the other type.  Every other type stays what it is.
So a test is still a test, and a loop over the elements of an array stays one.
-/

namespace Barista
namespace Ty

/-- The same type, or two types of numbers. -/
def SameKind (a b : Ty) : Prop :=
  a = b ∨ a.isNumeric = true ∧ b.isNumeric = true

instance (a b : Ty) : Decidable (a.SameKind b) :=
  inferInstanceAs (Decidable (_ ∨ _))

namespace SameKind

variable {a b : Ty}

theorem refl (a : Ty) : a.SameKind a := .inl rfl

theorem of_numeric (ha : a.isNumeric = true) (hb : b.isNumeric = true) : a.SameKind b :=
  .inr ⟨ha, hb⟩

theorem isNumeric_eq (h : a.SameKind b) : a.isNumeric = b.isNumeric := by
  rcases h with rfl | ⟨ha, hb⟩
  · rfl
  · rw [ha, hb]

/-- Only numbers have more than one type of their kind. -/
theorem eq_of_not_numeric (h : a.SameKind b) (hb : b.isNumeric = false) : a = b := by
  rcases h with rfl | ⟨-, hb'⟩
  · rfl
  · rw [hb] at hb'
    cases hb'

theorem isArray_eq (h : a.SameKind b) : a.isArray = b.isArray := by
  rcases h with rfl | ⟨ha, hb⟩
  · rfl
  · cases a <;> cases b <;> trivial

end SameKind
end Ty

namespace Core

/-! ## What expressions are for -/

/-- What an expression of a statement is for. -/
inductive Role
  | test
  | collection (iterator : VarId)
  | value
deriving DecidableEq, Repr

mutual

/-- The expressions that a statement holds, with their roles. -/
def Stmt.operands : Stmt → List (Role × Expr)
  | .declare _ init => [(.value, init)]
  | .assign _ _ value => [(.value, value)]
  | .print argument => [(.value, argument)]
  | .cond test body rest => (.test, test) :: (Stmt.allOperands body ++ rest.operands)
  | .loop test body => (.test, test) :: Stmt.allOperands body
  | .each iterator collection body =>
    (.collection iterator, collection) :: Stmt.allOperands body
  | .ret value => value.toList.map fun e ↦ (.value, e)
  | .function _ body => Stmt.allOperands body
  | .call callee args type => [(.value, .call callee args type)]

def Stmt.allOperands : List Stmt → List (Role × Expr)
  | [] => []
  | s :: rest => s.operands ++ Stmt.allOperands rest

def Chain.operands : Chain → List (Role × Expr)
  | .finish => []
  | .otherwise body => Stmt.allOperands body
  | .also test body rest => (.test, test) :: (Stmt.allOperands body ++ rest.operands)

end

mutual

/-- The tests of the ternaries in an expression. -/
def Expr.tests : Expr → List Expr
  | .int _ | .double _ | .bool _ | .string _ | .var _ => []
  | .binary _ l r _ => l.tests ++ r.tests
  | .unary _ e _ => e.tests
  | .ternary c y n _ => c :: (c.tests ++ y.tests ++ n.tests)
  | .call _ args _ => Expr.allTests args
  | .index a i _ => a.tests ++ i.tests
  | .array items _ => Expr.allTests items

def Expr.allTests : List Expr → List Expr
  | [] => []
  | e :: es => e.tests ++ Expr.allTests es

end

/-- All tests of the program: those of its conditionals and loops and those of its ternaries. -/
def Program.tests (p : Program) : List Expr :=
  (Stmt.allOperands p.statements).flatMap fun (role, e) ↦
    (if role = .test then [e] else []) ++ e.tests

/-- The iterator of a loop, and whether the loop runs over the elements of an array. -/
def lowering? (entities : Entities) : Role × Expr → Option (VarId × Bool)
  | (.collection iterator, e) => some (iterator, (e.type entities).isArray)
  | _ => none

/-- The expression is typed, with the type that its role asks for. -/
def Role.Typed (entities : Entities) : Role × Expr → Prop
  | (.test, e) => HasType entities none e .bool
  | (_, e) => e.WellTyped entities

theorem Role.Typed.wellTyped {entities : Entities} {role : Role} {e : Expr}
    (h : Role.Typed entities (role, e)) : e.WellTyped entities := by
  cases role with
  | test => exact ⟨none, .bool, h⟩
  | collection _ | value => exact h

theorem Stmt.allOperands_append (a b : List Stmt) :
    Stmt.allOperands (a ++ b) = Stmt.allOperands a ++ Stmt.allOperands b := by
  induction a with
  | nil => rfl
  | cons s a ih => rw [List.cons_append, Stmt.allOperands, Stmt.allOperands, ih, List.append_assoc]

theorem Stmt.allOperands_singleton (s : Stmt) : Stmt.allOperands [s] = s.operands :=
  List.append_nil _

section Typed

variable {entities : Entities}

mutual

theorem StmtTyped.typed_operand {enclosing : Option FunId} :
    ∀ {s : Stmt}, StmtTyped entities enclosing s → ∀ x ∈ s.operands, Role.Typed entities x
  | .declare target init, h => by
      cases h with
      | declare _ _ he => exact List.forall_mem_singleton.2 ⟨_, _, he⟩
  | .assign target op value, h => by
      cases h with
      | assign _ _ _ he => exact List.forall_mem_singleton.2 ⟨_, _, he⟩
      | compound _ _ _ he => exact List.forall_mem_singleton.2 ⟨_, _, he⟩
  | .print argument, h => by
      cases h with
      | print he => exact List.forall_mem_singleton.2 ⟨_, _, he⟩
  | .cond test body rest, h => by
      cases h with
      | cond hc hbody hrest =>
          exact List.forall_mem_cons.2
            ⟨hc, List.forall_mem_append.2 ⟨hbody.typed_operand, hrest.typed_operand⟩⟩
  | .loop test body, h => by
      cases h with
      | loop hc hbody => exact List.forall_mem_cons.2 ⟨hc, hbody.typed_operand⟩
  | .each iterator collection body, h => by
      cases h with
      | count _ _ _ he hbody => exact List.forall_mem_cons.2 ⟨⟨_, _, he⟩, hbody.typed_operand⟩
      | elements _ _ he hbody => exact List.forall_mem_cons.2 ⟨⟨_, _, he⟩, hbody.typed_operand⟩
  | .ret value, h => by
      cases h with
      | stop => exact List.forall_mem_nil _
      | ret _ _ he => exact List.forall_mem_singleton.2 ⟨_, _, he⟩
  | .function id body, h => by
      cases h with
      | function _ _ hbody =>
          have hoperands := hbody.typed_operand
          exact hoperands
  | .call callee args type, h => by
      cases h with
      | call hcall => exact List.forall_mem_singleton.2 ⟨_, _, hcall⟩

theorem BlockTyped.typed_operand {enclosing : Option FunId} :
    ∀ {b : List Stmt}, BlockTyped entities enclosing b →
      ∀ x ∈ Stmt.allOperands b, Role.Typed entities x
  | [], _ => List.forall_mem_nil _
  | s :: rest, h => by
      cases h with
      | cons hs hrest => exact List.forall_mem_append.2 ⟨hs.typed_operand, hrest.typed_operand⟩

theorem ChainTyped.typed_operand {enclosing : Option FunId} :
    ∀ {c : Chain}, ChainTyped entities enclosing c → ∀ x ∈ c.operands, Role.Typed entities x
  | .finish, _ => List.forall_mem_nil _
  | .otherwise body, h => by
      cases h with
      | otherwise hbody =>
          have hoperands := hbody.typed_operand
          exact hoperands
  | .also test body rest, h => by
      cases h with
      | also hc hbody hrest =>
          exact List.forall_mem_cons.2
            ⟨hc, List.forall_mem_append.2 ⟨hbody.typed_operand, hrest.typed_operand⟩⟩

end

end Typed

end Core

namespace Optimize

open Barista.Core (Expr VarId Entity Entities HasType Stmt Chain Program Role)

variable {entities : Entities}

/-! ## The kind of an expression -/

theorem type_of_finite? {d : Double} {e : Expr} (h : finite? d = some e) :
    e.type entities = .double := by
  rw [finite?] at h
  split at h <;> cases h
  rfl

theorem type_of_map_int {n : Option Whole} {e : Expr} (h : n.map Expr.int = some e) :
    e.type entities = .int := by
  obtain ⟨value, -, rfl⟩ := Option.map_eq_some_iff.1 h
  rfl

/-- Arithmetic gives numbers and everything else gives truth values. -/
def operationType (op : BinaryOp) : Ty :=
  if op.isArithmetic then .double else .bool

theorem type_of_foldDouble? {op : BinaryOp} {a b : Double} {e : Expr}
    (h : foldDouble? op a b = some e) : e.type entities = operationType op := by
  cases op with
  | add | sub | mul | pow => exact type_of_finite? h
  | div =>
      simp only [foldDouble?] at h
      split at h
      · cases h
      · exact type_of_finite? h
  | lt | le | eq | ne | ge | gt =>
      cases h
      rfl
  | and | or => cases h

theorem kind_of_foldInt? {op : BinaryOp} {a b : Whole} {e : Expr}
    (h : foldInt? op a b = some e) : (e.type entities).SameKind (operationType op) := by
  have hint : (Ty.int).SameKind .double := .of_numeric rfl rfl
  cases op with
  | add | sub | mul =>
      rw [type_of_map_int h]
      exact hint
  | div =>
      simp only [foldInt?, foldQuotient?] at h
      split_ifs at h
      · rw [type_of_map_int h]
        exact hint
      · exact .inl (type_of_finite? h)
  | pow =>
      simp only [foldInt?, foldPower?] at h
      split_ifs at h
      · exact .inl (type_of_finite? h)
      · rw [type_of_map_int h]
        exact hint
  | lt | le | eq | ne | ge | gt | and | or =>
      simp only [foldInt?] at h
      exact .inl (type_of_foldDouble? h)

theorem kind_of_fold? {op : BinaryOp} {left right e : Expr} (h : fold? op left right = some e) :
    (e.type entities).SameKind (operationType op) := by
  rw [fold?.eq_def] at h
  split at h
  · exact kind_of_foldInt? h
  · simp only [Option.bind_eq_bind, Option.bind_eq_some_iff] at h
    obtain ⟨a, -, b, -, hfold⟩ := h
    exact .inl (type_of_foldDouble? hfold)

theorem kind_identity_arithmetic {op : BinaryOp} {left right : Expr} {type : Ty}
    (hop : op.isArithmetic = true) (hleft : (left.type entities).isNumeric = true)
    (hright : (right.type entities).isNumeric = true) (htype : type.isNumeric = true) :
    ((identity op left right type).type entities).isNumeric = true := by
  have hsame : ((Expr.binary op left right type).type entities).isNumeric = true := htype
  have hneg : ((Expr.unary .neg right type).type entities).isNumeric = true := htype
  have hone : ((Expr.int .one).type entities).isNumeric = true := rfl
  cases op with
  | add | sub | mul | div | pow =>
      simp only [identity]
      split_ifs <;> assumption
  | lt | le | eq | ne | ge | gt | and | or => cases hop

theorem type_identity_of_bool {op : BinaryOp} {left right : Expr}
    (hop : op.isArithmetic = false) (hlogical : op.isLogical = true →
      left.type entities = .bool ∧ right.type entities = .bool) :
    (identity op left right .bool).type entities = .bool := by
  have hsame : (Expr.binary op left right .bool).type entities = .bool := rfl
  cases op with
  | add | sub | mul | div | pow => cases hop
  | lt | le | eq | ne | ge | gt => exact hsame
  | and | or =>
      obtain ⟨hleft, hright⟩ := hlogical rfl
      simp only [identity]
      split_ifs <;> assumption

theorem kind_binary_arithmetic {op : BinaryOp} {left right : Expr} {type : Ty}
    (hop : op.isArithmetic = true) (hleft : (left.type entities).isNumeric = true)
    (hright : (right.type entities).isNumeric = true) (htype : type.isNumeric = true) :
    ((binary op left right type).type entities).SameKind type := by
  rw [binary]
  split
  · rename_i folded hfold
    have hkind : (folded.type entities).SameKind (operationType op) := kind_of_fold? hfold
    rw [operationType, if_pos hop] at hkind
    exact .of_numeric (hkind.isNumeric_eq.trans rfl) htype
  · exact .of_numeric (kind_identity_arithmetic hop hleft hright htype) htype

theorem type_binary_of_bool {op : BinaryOp} {left right : Expr}
    (hop : op.isArithmetic = false) (hlogical : op.isLogical = true →
      left.type entities = .bool ∧ right.type entities = .bool) :
    (binary op left right .bool).type entities = .bool := by
  rw [binary]
  split
  · rename_i folded hfold
    have hkind : (folded.type entities).SameKind (operationType op) := kind_of_fold? hfold
    rw [operationType, hop] at hkind
    exact hkind.eq_of_not_numeric rfl
  · exact type_identity_of_bool hop hlogical

theorem kind_unary {op : UnaryOp} {operand : Expr} {type : Ty}
    (h : (operand.type entities).SameKind type) :
    ((unary op operand type).type entities).SameKind type := by
  rw [unary]
  split
  · rename_i folded hfold
    rw [foldUnary?.eq_def] at hfold
    split at hfold
    · rw [type_of_map_int hfold]
      exact h
    · cases hfold
      exact h
    · cases hfold
  · exact .refl type

theorem kind_ternary {test yes no : Expr} {type : Ty} (hyes : (yes.type entities).SameKind type)
    (hno : (no.type entities).SameKind type) :
    ((ternary test yes no type).type entities).SameKind type := by
  rw [ternary.eq_def]
  split
  · exact hyes
  · exact hno
  · exact .refl type

/-- Optimization keeps the kind of the type of an expression. -/
theorem kind_expr {hint : Option Ty} {t : Ty} :
    ∀ {e : Expr}, HasType entities hint e t → ((expr e).type entities).SameKind t
  | .int _, h | .double _, h | .bool _, h | .string _, h | .var _, h => by
      rw [expr, h.type_eq]
      exact .refl t
  | .call _ _ _, h | .index _ _ _, h | .array _ _, h => by
      rw [expr, ← h.type_eq]
      exact .refl _
  | .binary op l r type, h => by
      rw [expr]
      cases h with
      | arithmetic hop hl hr ha hb =>
          have hleft := (kind_expr hl).isNumeric_eq.trans ha
          have hright := (kind_expr hr).isNumeric_eq.trans hb
          exact kind_binary_arithmetic hop hleft hright ha
      | logical hop hl hr =>
          have harithmetic : op.isArithmetic = false := by cases op <;> trivial
          have hleft := (kind_expr hl).eq_of_not_numeric rfl
          have hright := (kind_expr hr).eq_of_not_numeric rfl
          exact .inl (type_binary_of_bool harithmetic fun _ ↦ ⟨hleft, hright⟩)
      | comparison hop hl hr =>
          have harithmetic : op.isArithmetic = false := by cases op <;> trivial
          have hlogical : ¬ op.isLogical = true := by cases op <;> trivial
          exact .inl (type_binary_of_bool harithmetic fun h ↦ absurd h hlogical)
  | .unary op e type, h => by
      rw [expr]
      cases h with
      | not he => exact kind_unary (kind_expr he)
      | neg he => exact kind_unary (kind_expr he)
  | .ternary c y n type, h => by
      rw [expr]
      cases h with
      | ternary hc hy hn => exact kind_ternary (kind_expr hy) (kind_expr hn)

/-! ## Tests of ternaries -/

theorem Constant.tests {e : Expr} (h : Constant e) : e.tests = [] := by
  cases h <;> rfl

theorem tests_identity (op : BinaryOp) (left right : Expr) (type : Ty) :
    (identity op left right type).tests.Sublist (left.tests ++ right.tests) := by
  have hboth : (Expr.binary op left right type).tests.Sublist (left.tests ++ right.tests) :=
    List.Sublist.refl _
  have hleft : left.tests.Sublist (left.tests ++ right.tests) := List.sublist_append_left _ _
  have hright : right.tests.Sublist (left.tests ++ right.tests) := List.sublist_append_right _ _
  have hnone : (Expr.int Whole.one).tests.Sublist (left.tests ++ right.tests) :=
    List.nil_sublist _
  have hneg : (Expr.unary .neg right type).tests.Sublist (left.tests ++ right.tests) := hright
  cases op with
  | lt | le | eq | ne | ge | gt => exact hboth
  | add | sub | mul | div | pow | and | or =>
      simp only [identity]
      split_ifs <;> assumption

theorem tests_binary (op : BinaryOp) (left right : Expr) (type : Ty) :
    (binary op left right type).tests.Sublist (left.tests ++ right.tests) := by
  rw [binary]
  split
  · rename_i folded hfold
    rw [(constant_of_fold? hfold).tests]
    exact List.nil_sublist _
  · exact tests_identity op left right type

theorem tests_unary (op : UnaryOp) (operand : Expr) (type : Ty) :
    (unary op operand type).tests.Sublist operand.tests := by
  rw [unary]
  split
  · rename_i folded hfold
    rw [foldUnary?.eq_def] at hfold
    split at hfold
    · rw [(constant_of_map_int hfold).tests]
      exact List.nil_sublist _
    · cases hfold
      exact List.nil_sublist _
    · cases hfold
  · exact List.Sublist.refl _

theorem tests_ternary (test yes no : Expr) (type : Ty) :
    (ternary test yes no type).tests.Sublist
      (test :: (test.tests ++ yes.tests ++ no.tests)) := by
  rw [ternary.eq_def]
  split
  · exact (List.sublist_append_left _ _).cons _
  · exact (List.sublist_append_right _ _).cons _
  · exact List.Sublist.refl _

mutual

/-- The tests of ternaries are truth values after optimization, too. -/
theorem type_of_tests_expr {hint : Option Ty} {t : Ty} : ∀ {e : Expr}, HasType entities hint e t →
    ∀ test ∈ (expr e).tests, test.type entities = .bool
  | .int _, _ | .double _, _ | .bool _, _ | .string _, _ | .var _, _ => by
      rw [expr]
      exact List.forall_mem_nil _
  | .binary op l r type, h => by
      rw [expr]
      obtain ⟨⟨a, hl⟩, b, hr⟩ := h.binary_operands
      have hall := List.forall_mem_append.2 ⟨type_of_tests_expr hl, type_of_tests_expr hr⟩
      exact fun test htest ↦ hall test ((tests_binary _ _ _ _).subset htest)
  | .unary op e type, h => by
      rw [expr]
      have hoperand := type_of_tests_expr h.unary_operand
      exact fun test htest ↦ hoperand test ((tests_unary _ _ _).subset htest)
  | .ternary c y n type, h => by
      rw [expr]
      obtain ⟨hc, hy, hn⟩ := h.ternary_operands
      have htest : (expr c).type entities = .bool := (kind_expr hc).eq_of_not_numeric rfl
      have hyes := List.forall_mem_append.2 ⟨type_of_tests_expr hc, type_of_tests_expr hy⟩
      have hinside := List.forall_mem_append.2 ⟨hyes, type_of_tests_expr hn⟩
      intro test hmem
      rcases List.mem_cons.1 ((tests_ternary _ _ _ _).subset hmem) with rfl | hmem
      · exact htest
      · exact hinside test hmem
  | .call callee args type, h => by
      rw [expr]
      obtain ⟨hints, hargs⟩ := h.call_operands
      have hall := type_of_tests_exprs hargs
      exact hall
  | .index a i type, h => by
      rw [expr]
      obtain ⟨ha, hi⟩ := h.index_operands
      exact List.forall_mem_append.2 ⟨type_of_tests_expr ha, type_of_tests_expr hi⟩
  | .array items type, h => by
      rw [expr]
      obtain ⟨hints, hitems⟩ := h.array_operands
      have hall := type_of_tests_exprs hitems
      exact hall

theorem type_of_tests_exprs {hints : List (Option Ty)} :
    ∀ {es : List Expr}, Core.HaveTypes entities hints es →
      ∀ test ∈ Expr.allTests (exprs es), test.type entities = .bool
  | [], _ => by
      rw [exprs]
      exact List.forall_mem_nil _
  | e :: es, h => by
      rw [exprs]
      cases h with
      | cons he hes =>
          exact List.forall_mem_append.2 ⟨type_of_tests_expr he, type_of_tests_exprs hes⟩

end

/-! ## Statements -/

/-- An expression keeps its role. -/
def operand (x : Role × Expr) : Role × Expr :=
  (x.1, expr x.2)

theorem operands_assign (target : VarId) (op : AssignOp) (value : Expr) :
    (Stmt.allOperands (assign target op value)).Sublist [(.value, value)] := by
  rw [assign.eq_def]
  split
  · split
    · exact List.nil_sublist _
    · exact List.Sublist.refl _
  · exact List.Sublist.refl _

theorem operands_loop (test : Expr) (body : List Stmt) :
    (Stmt.allOperands (loop test body)).Sublist ((.test, test) :: Stmt.allOperands body) := by
  rw [loop.eq_def]
  split
  · exact List.nil_sublist _
  · rw [Stmt.allOperands_singleton, Stmt.operands]

theorem operands_each (iterator : VarId) (collection : Expr) (body : List Stmt) :
    (Stmt.allOperands (each iterator collection body)).Sublist
      ((.collection iterator, collection) :: Stmt.allOperands body) := by
  rw [each.eq_def]
  split
  · exact List.nil_sublist _
  · rw [Stmt.allOperands_singleton, Stmt.operands]

theorem operands_branch (test : Expr) (body : List Stmt) (rest : Chain) :
    (branch test body rest).operands.Sublist
      ((.test, test) :: (Stmt.allOperands body ++ rest.operands)) := by
  rw [branch.eq_def]
  split
  · exact (List.sublist_append_left _ _).cons _
  · exact (List.sublist_append_right _ _).cons _
  · exact List.Sublist.refl _

theorem operands_cond (c : Chain) : Stmt.allOperands (cond c) = c.operands := by
  cases c with
  | finish => rfl
  | otherwise body => rfl
  | also test body rest =>
      rw [cond, Stmt.allOperands_singleton]
      rfl

mutual

/-- The expressions of an optimized statement are optimized expressions of the statement, in the
same roles and in the same order. -/
theorem operands_stmt : ∀ s : Stmt,
    (Stmt.allOperands (stmt s)).Sublist (s.operands.map operand)
  | .declare target init | .print init => by
      rw [stmt, Stmt.allOperands_singleton]
      exact List.Sublist.refl _
  | .assign target op value => by
      rw [stmt]
      exact operands_assign _ _ _
  | .cond test body rest => by
      rw [stmt, operands_cond, Stmt.operands, List.map_cons, List.map_append]
      have hall := (operands_block body).append (operands_chain rest)
      exact (operands_branch _ _ _).trans (hall.cons_cons _)
  | .loop test body => by
      rw [stmt, Stmt.operands, List.map_cons]
      exact (operands_loop _ _).trans ((operands_block body).cons_cons _)
  | .each iterator collection body => by
      rw [stmt, Stmt.operands, List.map_cons]
      exact (operands_each _ _ _).trans ((operands_block body).cons_cons _)
  | .ret value => by
      rw [stmt, Stmt.allOperands_singleton]
      cases value <;> exact List.Sublist.refl _
  | .function id body => by
      rw [stmt, Stmt.allOperands_singleton, Stmt.operands, Stmt.operands]
      have hbody := operands_block body
      exact hbody
  | .call callee args type => by
      rw [stmt, Stmt.allOperands_singleton, Stmt.operands, Stmt.operands, List.map_singleton,
        operand, expr]

theorem operands_block : ∀ b : List Stmt,
    (Stmt.allOperands (block b)).Sublist ((Stmt.allOperands b).map operand)
  | [] => by
      rw [block]
      exact List.Sublist.refl _
  | s :: rest => by
      rw [block, Stmt.allOperands_append, Stmt.allOperands, List.map_append]
      exact (operands_stmt s).append (operands_block rest)

theorem operands_chain : ∀ c : Chain,
    (chain c).operands.Sublist (c.operands.map operand)
  | .finish => by
      rw [chain]
      exact List.Sublist.refl _
  | .otherwise body => by
      rw [chain]
      have hbody := operands_block body
      exact hbody
  | .also test body rest => by
      rw [chain, Chain.operands, List.map_cons, List.map_append]
      have hall := (operands_block body).append (operands_chain rest)
      exact (operands_branch _ _ _).trans (hall.cons_cons _)

end

theorem lowering?_operand {x : Role × Expr} (h : Role.Typed entities x) :
    Core.lowering? entities (operand x) = Core.lowering? entities x := by
  obtain ⟨role, e⟩ := x
  obtain ⟨hint, t, he⟩ := h.wellTyped
  cases role with
  | test | value => rfl
  | collection iterator =>
      have hkind : ((expr e).type entities).SameKind (e.type entities) := by
        rw [he.type_eq]
        exact kind_expr he
      simp only [operand, Core.lowering?, hkind.isArray_eq]

section Program

variable {p : Program} (h : Core.BlockTyped p.entities none p.statements)
include h

theorem type_of_tests_program :
    ∀ test ∈ (program p).tests, test.type p.entities = .bool := by
  intro test htest
  obtain ⟨x, hx, htest⟩ := List.mem_flatMap.1 htest
  obtain ⟨⟨role, e⟩, he, rfl⟩ := List.mem_map.1 ((operands_block p.statements).subset hx)
  have htyped := h.typed_operand (role, e) he
  obtain ⟨hint, t, htype⟩ := htyped.wellTyped
  rcases List.mem_append.1 htest with hself | hinside
  · split_ifs at hself with hrole
    · obtain rfl := List.mem_singleton.1 hself
      cases hrole
      exact (kind_expr htyped).eq_of_not_numeric rfl
    · cases hself
  · exact type_of_tests_expr htype test hinside

theorem lowerings_program :
    ((Stmt.allOperands (program p).statements).filterMap (Core.lowering? p.entities)).Sublist
      ((Stmt.allOperands p.statements).filterMap (Core.lowering? p.entities)) := by
  have hloops := (operands_block p.statements).filterMap (Core.lowering? p.entities)
  have hsame : (Stmt.allOperands p.statements).filterMap (Core.lowering? p.entities ∘ operand) =
      (Stmt.allOperands p.statements).filterMap (Core.lowering? p.entities) :=
    List.filterMap_congr fun x hx ↦ lowering?_operand (h.typed_operand x hx)
  rw [List.filterMap_map, hsame] at hloops
  exact hloops

end Program

end Optimize

namespace Script

open Barista.Core (VarId Entity Entities)

/-! ## Loops of a script -/

mutual

/-- The loops of a statement: the iterator of each, and whether it runs over the elements of an
array. -/
def Stmt.loops : Stmt → List (VarId × Bool)
  | .elements iterator _ body => (iterator, true) :: Stmt.allLoops body
  | .count iterator _ body => (iterator, false) :: Stmt.allLoops body
  | .cond _ body rest => Stmt.allLoops body ++ rest.loops
  | .loop _ body => Stmt.allLoops body
  | .function _ _ body => Stmt.allLoops body
  | .declare _ _ | .hoist _ | .assign _ _ _ | .print _ | .ret _ | .call _ _ _ => []

def Stmt.allLoops : List Stmt → List (VarId × Bool)
  | [] => []
  | s :: rest => s.loops ++ Stmt.allLoops rest

def Chain.loops : Chain → List (VarId × Bool)
  | .finish => []
  | .otherwise body => Stmt.allLoops body
  | .also _ body rest => Stmt.allLoops body ++ rest.loops

end

theorem Stmt.allLoops_append (a b : List Stmt) :
    Stmt.allLoops (a ++ b) = Stmt.allLoops a ++ Stmt.allLoops b := by
  induction a with
  | nil => rfl
  | cons s a ih => rw [List.cons_append, Stmt.allLoops, Stmt.allLoops, ih, List.append_assoc]

theorem loops_hoistFirst (ids : List VarId) (s : Stmt) :
    Stmt.allLoops (hoistFirst ids s) = s.loops := by
  rw [hoistFirst]
  split <;> exact List.append_nil _

variable {entities : Entities}

mutual

/-- A script has the loops of its program, and what is hoisted is none. -/
theorem loops_ofStmt : ∀ (s : Core.Stmt) (hoisted : List VarId),
    Stmt.allLoops (ofStmt entities hoisted s).1 = s.operands.filterMap (Core.lowering? entities)
  | .declare id init, hoisted => by
      rw [ofStmt]
      split <;> rfl
  | .assign _ _ _, _ | .print _, _ | .call _ _ _, _ => rfl
  | .ret value, _ => by cases value <;> rfl
  | .cond test body rest, hoisted => by
      simp only [ofStmt, loops_hoistFirst, Stmt.loops, loops_ofBlock body, loops_ofChain rest]
      exact (List.filterMap_append).symm
  | .loop test body, hoisted => by
      simp only [ofStmt, Stmt.allLoops, Stmt.loops, loops_ofBlock body, List.append_nil]
      rfl
  | .each iterator collection body, hoisted => by
      simp only [ofStmt, Core.Stmt.operands, List.filterMap_cons, Core.lowering?]
      cases (collection.type entities).isArray <;>
        simp [Stmt.allLoops, Stmt.loops, loops_ofBlock body]
  | .function id body, hoisted => by
      simp only [ofStmt, Stmt.allLoops, Stmt.loops, loops_ofBlock body, List.append_nil]
      rfl

theorem loops_ofBlock : ∀ (b : List Core.Stmt) (hoisted : List VarId),
    Stmt.allLoops (ofBlock entities hoisted b).1 =
      (Core.Stmt.allOperands b).filterMap (Core.lowering? entities)
  | [], _ => rfl
  | s :: rest, hoisted => by
      simp only [ofBlock, Stmt.allLoops_append, loops_ofStmt s, loops_ofBlock rest]
      exact (List.filterMap_append).symm

theorem loops_ofChain : ∀ (c : Core.Chain) (hoisted : List VarId),
    (ofChain entities hoisted c).1.loops = c.operands.filterMap (Core.lowering? entities)
  | .finish, _ => rfl
  | .otherwise body, hoisted => by
      simp only [ofChain, Chain.loops, loops_ofBlock body]
      rfl
  | .also test body rest, hoisted => by
      simp only [ofChain, Chain.loops, loops_ofBlock body, loops_ofChain rest]
      exact (List.filterMap_append).symm

end

/-- The iterators of loops are declared by them. -/
def iterators (loops : List (VarId × Bool)) : List Entity :=
  loops.map fun l ↦ .variable l.1

theorem iterators_append (a b : List (VarId × Bool)) :
    iterators (a ++ b) = iterators a ++ iterators b :=
  List.map_append

mutual

theorem iterators_stmt : ∀ s : Core.Stmt,
    (iterators (s.operands.filterMap (Core.lowering? entities))).Sublist (s.declared entities)
  | .declare _ _ | .assign _ _ _ | .print _ | .call _ _ _ => List.nil_sublist _
  | .ret value => by cases value <;> exact List.nil_sublist _
  | .cond test body rest => by
      have hall := (iterators_block body).append (iterators_chain rest)
      rw [← iterators_append, ← List.filterMap_append] at hall
      exact hall
  | .loop test body => by
      have hbody := iterators_block body
      exact hbody
  | .each iterator collection body => by
      have hbody := iterators_block body
      exact hbody.cons_cons _
  | .function id body => by
      have hbody := iterators_block body
      exact (hbody.trans (List.sublist_append_right _ _)).cons _

theorem iterators_block : ∀ b : List Core.Stmt,
    (iterators ((Core.Stmt.allOperands b).filterMap (Core.lowering? entities))).Sublist
      (Core.Stmt.allDeclared entities b)
  | [] => List.nil_sublist _
  | s :: rest => by
      rw [Core.Stmt.allOperands, List.filterMap_append, iterators_append]
      exact (iterators_stmt s).append (iterators_block rest)

theorem iterators_chain : ∀ c : Core.Chain,
    (iterators (c.operands.filterMap (Core.lowering? entities))).Sublist (c.declared entities)
  | .finish => List.nil_sublist _
  | .otherwise body => by
      have hbody := iterators_block body
      exact hbody
  | .also test body rest => by
      have hall := (iterators_block body).append (iterators_chain rest)
      rw [← iterators_append, ← List.filterMap_append] at hall
      exact hall

end

end Script

/-- In an accepted program optimization keeps the kind of the type of every expression, all tests
are truth values behind it, and each loop that is left is written as it would be without it.  A loop
is known by its iterator, which no other loop has. -/
theorem kinds_of_analyze {source : String} {p : Core.Program} (h : analyze source = .ok p) :
    (∀ e ∈ p.parts, ((Optimize.expr e).type p.entities).SameKind (e.type p.entities)) ∧
      (∀ test ∈ (Optimize.program p).tests, test.type p.entities = .bool) ∧
      (Script.iterators (Script.Stmt.allLoops (Script.ofProgram p))).Nodup ∧
      (Script.Stmt.allLoops (Script.ofProgram (Optimize.program p))).Sublist
        (Script.Stmt.allLoops (Script.ofProgram p)) := by
  obtain ⟨statements, s, -, hblock, hentities⟩ := block_of_analyze h
  have hbelow : s.entities.Below p.entities := hentities ▸ Core.Entities.Below.refl _
  have htyped : Core.BlockTyped p.entities none p.statements :=
    Analysis.blockTyped_of_block Analysis.closed_initial hbelow (Analysis.encloses_none _)
      statements hblock
  have hdeclared := (Analysis.lexicallyScoped_of_block hblock hentities).declared.1
  refine ⟨fun e he ↦ ?_, Optimize.type_of_tests_program htyped, ?_, ?_⟩
  · obtain ⟨hint, t, htype⟩ := wellTyped_of_mem_parts h he
    rw [htype.type_eq]
    exact Optimize.kind_expr htype
  · rw [Script.ofProgram, Script.loops_ofBlock]
    exact (Script.iterators_block p.statements).nodup hdeclared
  · rw [Script.ofProgram, Script.ofProgram, Script.loops_ofBlock, Script.loops_ofBlock]
    exact Optimize.lowerings_program htyped

/-- A quotient becomes a `double` and a test loses an operand.  Of three loops the one over an empty
array is left out, and the others stay what they are. -/
theorem kinds_of_analyze_loops :
    ∃ p, analyze ("array[int] xs = [1, 2]\nfor x in true ? xs : [3] \x7b\n  print(7 / 2)\n\x7d\n" ++
        "for i in 1 + 2 \x7b\n  for n in [] \x7b\n    print(i)\n  \x7d\n\x7d\n" ++
        "while xs[0] < 1 && true \x7b\n  print(xs[1] > 1 ? 1 : 0)\n\x7d") = .ok p ∧
      Script.Stmt.allLoops (Script.ofProgram p) = [(⟨1⟩, true), (⟨2⟩, false), (⟨3⟩, true)] ∧
      Script.Stmt.allLoops (Script.ofProgram (Optimize.program p)) =
        [(⟨1⟩, true), (⟨2⟩, false)] ∧
      (Optimize.program p).tests.length = 2 ∧
      (∀ e ∈ p.parts, ((Optimize.expr e).type p.entities).SameKind (e.type p.entities)) ∧
      ∀ test ∈ (Optimize.program p).tests, test.type p.entities = .bool := by
  refine (exists_of_toOption (P := fun p ↦
    Script.Stmt.allLoops (Script.ofProgram p) = [(⟨1⟩, true), (⟨2⟩, false), (⟨3⟩, true)] ∧
      Script.Stmt.allLoops (Script.ofProgram (Optimize.program p)) =
        [(⟨1⟩, true), (⟨2⟩, false)] ∧ (Optimize.program p).tests.length = 2) ?_).imp
    fun p ⟨h, hall, hleft, htests⟩ ↦
      have hkinds := kinds_of_analyze h
      ⟨h, hall, hleft, htests, hkinds.1, hkinds.2.1⟩
  decide +kernel

end Barista
