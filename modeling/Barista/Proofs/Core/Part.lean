import Barista.Proofs.Analysis.Soundness

/-!
# Parts of trees

The expressions that statements hold, at any depth, and all that stands inside an expression.  A
part of a typed tree is typed, if not where the same type is expected.
-/

namespace Barista
namespace Core

mutual

/-- An expression and all that stands in it, from the outside in. -/
def Expr.parts : Expr → List Expr
  | .int n => [.int n]
  | .double d => [.double d]
  | .bool b => [.bool b]
  | .string s => [.string s]
  | .var id => [.var id]
  | .binary op l r type => .binary op l r type :: (l.parts ++ r.parts)
  | .unary op e type => .unary op e type :: e.parts
  | .ternary c y n type => .ternary c y n type :: (c.parts ++ y.parts ++ n.parts)
  | .call callee args type => .call callee args type :: Expr.allParts args
  | .index a i type => .index a i type :: (a.parts ++ i.parts)
  | .array items type => .array items type :: Expr.allParts items

def Expr.allParts : List Expr → List Expr
  | [] => []
  | e :: es => e.parts ++ Expr.allParts es

end

mutual

/-- The expressions that a statement holds.  A call is one of them, also when it stands alone. -/
def Stmt.exprs : Stmt → List Expr
  | .declare _ init => [init]
  | .assign _ _ value => [value]
  | .print argument => [argument]
  | .cond test body rest => test :: (Stmt.allExprs body ++ rest.exprs)
  | .loop test body => test :: Stmt.allExprs body
  | .each _ collection body => collection :: Stmt.allExprs body
  | .ret value => value.toList
  | .function _ body => Stmt.allExprs body
  | .call callee args type => [.call callee args type]

def Stmt.allExprs : List Stmt → List Expr
  | [] => []
  | s :: rest => s.exprs ++ Stmt.allExprs rest

def Chain.exprs : Chain → List Expr
  | .finish => []
  | .otherwise body => Stmt.allExprs body
  | .also test body rest => test :: (Stmt.allExprs body ++ rest.exprs)

end

/-- Every expression of the program, at any depth of statements and expressions. -/
def Program.parts (p : Program) : List Expr :=
  Expr.allParts (Stmt.allExprs p.statements)

namespace Expr

theorem mem_parts_self (e : Expr) : e ∈ e.parts := by
  cases e <;> simp [parts]

theorem mem_allParts_iff {part : Expr} {es : List Expr} :
    part ∈ allParts es ↔ ∃ e ∈ es, part ∈ e.parts := by
  induction es with
  | nil => simp [allParts]
  | cons e es ih => simp [allParts, ih]

/-- The expression has a type where something or nothing is expected. -/
def WellTyped (entities : Entities) (e : Expr) : Prop :=
  ∃ hint type, HasType entities hint e type

end Expr

/-! ## Parts of typed trees -/

section

variable {entities : Entities}

mutual

theorem HasType.wellTyped_part {hint : Option Ty} {t : Ty} :
    ∀ {e : Expr}, HasType entities hint e t → ∀ part ∈ e.parts, part.WellTyped entities
  | .int _, h | .double _, h | .bool _, h | .string _, h | .var _, h =>
      List.forall_mem_singleton.2 ⟨hint, t, h⟩
  | .binary op l r type, h => by
      obtain ⟨⟨a, hl⟩, b, hr⟩ := h.binary_operands
      exact List.forall_mem_cons.2 ⟨⟨hint, t, h⟩,
        List.forall_mem_append.2 ⟨hl.wellTyped_part, hr.wellTyped_part⟩⟩
  | .unary op e type, h => by
      have hoperand := h.unary_operand.wellTyped_part
      exact List.forall_mem_cons.2 ⟨⟨hint, t, h⟩, hoperand⟩
  | .ternary c y n type, h => by
      obtain ⟨hc, hy, hn⟩ := h.ternary_operands
      have htest := List.forall_mem_append.2 ⟨hc.wellTyped_part, hy.wellTyped_part⟩
      exact List.forall_mem_cons.2 ⟨⟨hint, t, h⟩,
        List.forall_mem_append.2 ⟨htest, hn.wellTyped_part⟩⟩
  | .call callee args type, h => by
      obtain ⟨hints, hargs⟩ := h.call_operands
      exact List.forall_mem_cons.2 ⟨⟨hint, t, h⟩, hargs.wellTyped_part⟩
  | .index a i type, h => by
      obtain ⟨ha, hi⟩ := h.index_operands
      exact List.forall_mem_cons.2 ⟨⟨hint, t, h⟩,
        List.forall_mem_append.2 ⟨ha.wellTyped_part, hi.wellTyped_part⟩⟩
  | .array items type, h => by
      obtain ⟨hints, hitems⟩ := h.array_operands
      exact List.forall_mem_cons.2 ⟨⟨hint, t, h⟩, hitems.wellTyped_part⟩

theorem HaveTypes.wellTyped_part {hints : List (Option Ty)} :
    ∀ {es : List Expr}, HaveTypes entities hints es →
      ∀ part ∈ Expr.allParts es, part.WellTyped entities
  | [], _ => List.forall_mem_nil _
  | e :: es, h => by
      cases h with
      | cons he hes =>
          exact List.forall_mem_append.2 ⟨he.wellTyped_part, hes.wellTyped_part⟩

end

mutual

theorem StmtTyped.wellTyped_expr {enclosing : Option FunId} :
    ∀ {s : Stmt}, StmtTyped entities enclosing s → ∀ e ∈ s.exprs, e.WellTyped entities
  | .declare target init, h => by
      cases h with
      | declare _ _ he => exact List.forall_mem_singleton.2 ⟨_, _, he⟩
  | .assign target op value, h => by
      cases h with
      | assign _ _ _ he => exact List.forall_mem_singleton.2 ⟨_, _, he⟩
      | compound _ _ _ he => exact List.forall_mem_singleton.2 ⟨_, _, he⟩
  | .print argument, h => by
      cases h with
      | print he => exact List.forall_mem_singleton.2 ⟨_, _, he⟩
  | .cond test body rest, h => by
      cases h with
      | cond hc hbody hrest =>
          exact List.forall_mem_cons.2 ⟨⟨_, _, hc⟩,
            List.forall_mem_append.2 ⟨hbody.wellTyped_expr, hrest.wellTyped_expr⟩⟩
  | .loop test body, h => by
      cases h with
      | loop hc hbody => exact List.forall_mem_cons.2 ⟨⟨_, _, hc⟩, hbody.wellTyped_expr⟩
  | .each iterator collection body, h => by
      cases h with
      | count _ _ _ he hbody =>
          exact List.forall_mem_cons.2 ⟨⟨_, _, he⟩, hbody.wellTyped_expr⟩
      | elements _ _ he hbody =>
          exact List.forall_mem_cons.2 ⟨⟨_, _, he⟩, hbody.wellTyped_expr⟩
  | .ret value, h => by
      cases h with
      | stop => exact List.forall_mem_nil _
      | ret _ _ he => exact List.forall_mem_singleton.2 ⟨_, _, he⟩
  | .function id body, h => by
      cases h with
      | function _ _ hbody =>
          have hexprs := hbody.wellTyped_expr
          exact hexprs
  | .call callee args type, h => by
      cases h with
      | call hcall => exact List.forall_mem_singleton.2 ⟨_, _, hcall⟩

theorem BlockTyped.wellTyped_expr {enclosing : Option FunId} :
    ∀ {b : List Stmt}, BlockTyped entities enclosing b →
      ∀ e ∈ Stmt.allExprs b, e.WellTyped entities
  | [], _ => List.forall_mem_nil _
  | s :: rest, h => by
      cases h with
      | cons hs hrest =>
          exact List.forall_mem_append.2 ⟨hs.wellTyped_expr, hrest.wellTyped_expr⟩

theorem ChainTyped.wellTyped_expr {enclosing : Option FunId} :
    ∀ {c : Chain}, ChainTyped entities enclosing c → ∀ e ∈ c.exprs, e.WellTyped entities
  | .finish, _ => List.forall_mem_nil _
  | .otherwise body, h => by
      cases h with
      | otherwise hbody =>
          have hexprs := hbody.wellTyped_expr
          exact hexprs
  | .also test body rest, h => by
      cases h with
      | also hc hbody hrest =>
          exact List.forall_mem_cons.2 ⟨⟨_, _, hc⟩,
            List.forall_mem_append.2 ⟨hbody.wellTyped_expr, hrest.wellTyped_expr⟩⟩

end

end

end Core

/-- Whatever stands in the tree that analysis gives is typed. -/
theorem wellTyped_of_mem_parts {source : String} {p : Core.Program} (h : analyze source = .ok p)
    {e : Core.Expr} (he : e ∈ p.parts) : e.WellTyped p.entities := by
  obtain ⟨statements, s, -, hblock, hentities⟩ := block_of_analyze h
  have hbelow : s.entities.Below p.entities := hentities ▸ Core.Entities.Below.refl _
  have htyped : Core.BlockTyped p.entities none p.statements :=
    Analysis.blockTyped_of_block Analysis.closed_initial hbelow (Analysis.encloses_none _)
      statements hblock
  obtain ⟨whole, hwhole, hpart⟩ := Core.Expr.mem_allParts_iff.1 he
  obtain ⟨hint, type, htype⟩ := htyped.wellTyped_expr whole hwhole
  exact htype.wellTyped_part e hpart

end Barista
