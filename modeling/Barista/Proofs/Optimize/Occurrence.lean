import Barista.Optimize.Statement
import Barista.Proofs.Core.Node

/-!
# Optimization brings in nothing

The nodes of an optimized program were nodes of the program before, in the same order: operands and
statements are dropped or kept where they are, and what a fold or an identity puts in the place of
an operation is a single node.
-/

namespace Barista
namespace Optimize

open Barista.Core (Expr VarId Stmt Chain Program)

/-! ## Constants -/

/-- What a fold may give. -/
inductive Constant : Expr → Prop
  | int (n : Whole) : Constant (.int n)
  | double {d : Double} (h : d.isFinite) : Constant (.double d)
  | bool (b : Bool) : Constant (.bool b)

theorem constant_of_finite? {d : Double} {e : Expr} (h : finite? d = some e) : Constant e := by
  rw [finite?] at h
  split at h <;> cases h
  exact .double ‹_›

theorem constant_of_map_int {n : Option Whole} {e : Expr} (h : n.map Expr.int = some e) :
    Constant e := by
  obtain ⟨value, -, rfl⟩ := Option.map_eq_some_iff.1 h
  exact .int value

theorem constant_of_foldDouble? {op : BinaryOp} {a b : Double} {e : Expr}
    (h : foldDouble? op a b = some e) : Constant e := by
  cases op with
  | add | sub | mul | pow => exact constant_of_finite? h
  | div =>
      simp only [foldDouble?] at h
      split at h
      · cases h
      · exact constant_of_finite? h
  | lt | le | eq | ne | ge | gt =>
      cases h
      exact .bool _
  | and | or => cases h

theorem constant_of_foldInt? {op : BinaryOp} {a b : Whole} {e : Expr}
    (h : foldInt? op a b = some e) : Constant e := by
  cases op with
  | add | sub | mul => exact constant_of_map_int h
  | div =>
      simp only [foldInt?, foldQuotient?] at h
      split_ifs at h
      · exact constant_of_map_int h
      · exact constant_of_finite? h
  | pow =>
      simp only [foldInt?, foldPower?] at h
      split_ifs at h
      · exact constant_of_finite? h
      · exact constant_of_map_int h
  | lt | le | eq | ne | ge | gt | and | or =>
      simp only [foldInt?] at h
      exact constant_of_foldDouble? h

theorem constant_of_fold? {op : BinaryOp} {left right e : Expr} (h : fold? op left right = some e) :
    Constant e := by
  rw [fold?.eq_def] at h
  split at h
  · exact constant_of_foldInt? h
  · simp only [Option.bind_eq_bind, Option.bind_eq_some_iff] at h
    obtain ⟨a, -, b, -, hfold⟩ := h
    exact constant_of_foldDouble? hfold

theorem Constant.nodes {e : Expr} (h : Constant e) : e.nodes = [.plain] := by
  cases h <;> rfl

theorem nodes_of_foldUnary? {op : UnaryOp} {operand e : Expr}
    (h : foldUnary? op operand = some e) : e.nodes = [.plain] := by
  rw [foldUnary?.eq_def] at h
  split at h
  · exact (constant_of_map_int h).nodes
  · cases h
    rfl
  · cases h

/-! ## Expressions -/

theorem plain_sublist (ns : List Core.Node) : [Core.Node.plain].Sublist (.plain :: ns) :=
  (List.nil_sublist ns).cons_cons _

/-- An identity keeps both operands, one of them or none, and at most one node besides. -/
theorem nodes_identity (op : BinaryOp) (left right : Expr) (type : Ty) :
    (identity op left right type).nodes.Sublist (.plain :: (left.nodes ++ right.nodes)) := by
  have hboth : (Expr.binary op left right type).nodes.Sublist
      (.plain :: (left.nodes ++ right.nodes)) := List.Sublist.refl _
  have hleft : left.nodes.Sublist (.plain :: (left.nodes ++ right.nodes)) :=
    (List.sublist_append_left _ _).cons _
  have hright : right.nodes.Sublist (.plain :: (left.nodes ++ right.nodes)) :=
    (List.sublist_append_right _ _).cons _
  have hone : (Expr.int Whole.one).nodes.Sublist (.plain :: (left.nodes ++ right.nodes)) :=
    plain_sublist _
  have hneg : (Expr.unary .neg right type).nodes.Sublist
      (.plain :: (left.nodes ++ right.nodes)) := (List.sublist_append_right _ _).cons_cons _
  cases op with
  | lt | le | eq | ne | ge | gt => exact hboth
  | add | sub | mul | div | pow | and | or =>
      simp only [identity]
      split_ifs <;> assumption

theorem nodes_binary (op : BinaryOp) (left right : Expr) (type : Ty) :
    (binary op left right type).nodes.Sublist (.plain :: (left.nodes ++ right.nodes)) := by
  simp only [binary]
  split
  · rename_i folded hfold
    rw [(constant_of_fold? hfold).nodes]
    exact plain_sublist _
  · exact nodes_identity op left right type

theorem nodes_unary (op : UnaryOp) (operand : Expr) (type : Ty) :
    (unary op operand type).nodes.Sublist (.plain :: operand.nodes) := by
  simp only [unary]
  split
  · rename_i folded hfold
    rw [nodes_of_foldUnary? hfold]
    exact plain_sublist _
  · exact List.Sublist.refl _

theorem nodes_ternary (test yes no : Expr) (type : Ty) :
    (ternary test yes no type).nodes.Sublist
      (.plain :: (test.nodes ++ yes.nodes ++ no.nodes)) := by
  rw [ternary.eq_def]
  split
  · exact ((List.sublist_append_right _ _).trans (List.sublist_append_left _ _)).cons _
  · exact (List.sublist_append_right _ _).cons _
  · exact List.Sublist.refl _

mutual

theorem nodes_expr : ∀ e : Expr, (expr e).nodes.Sublist e.nodes
  | .int _ | .double _ | .bool _ | .string _ | .var _ => by
      simp only [expr, List.Sublist.refl]
  | .binary op l r type => by
      rw [expr]
      have hoperands := (nodes_expr l).append (nodes_expr r)
      exact (nodes_binary _ _ _ _).trans (hoperands.cons_cons _)
  | .unary op e type => by
      rw [expr]
      have hoperand := nodes_expr e
      exact (nodes_unary _ _ _).trans (hoperand.cons_cons _)
  | .ternary c y n type => by
      rw [expr]
      have hoperands := ((nodes_expr c).append (nodes_expr y)).append (nodes_expr n)
      exact (nodes_ternary _ _ _ _).trans (hoperands.cons_cons _)
  | .call callee args type => by
      rw [expr]
      exact (nodes_exprs args).cons_cons _
  | .index a i type => by
      rw [expr]
      exact ((nodes_expr a).append (nodes_expr i)).cons_cons _
  | .array items type => by
      rw [expr]
      exact (nodes_exprs items).cons_cons _

theorem nodes_exprs : ∀ es : List Expr, (Expr.allNodes (exprs es)).Sublist (Expr.allNodes es)
  | [] => by
      simp only [exprs, List.Sublist.refl]
  | e :: es => by
      rw [exprs]
      exact (nodes_expr e).append (nodes_exprs es)

end

theorem refs_expr (e : Expr) : (expr e).refs.Sublist e.refs := by
  rw [← Expr.filterMap_nodes, ← Expr.filterMap_nodes]
  exact (nodes_expr e).filterMap _

theorem allRefs_exprs (es : List Expr) : (Expr.allRefs (exprs es)).Sublist (Expr.allRefs es) := by
  rw [← Expr.filterMap_allNodes, ← Expr.filterMap_allNodes]
  exact (nodes_exprs es).filterMap _

/-! ## Statements -/

theorem nodes_assign (target : VarId) (op : AssignOp) (value : Expr) :
    (Stmt.allNodes (assign target op value)).Sublist (.assign target :: value.nodes) := by
  have hkept : (Stmt.allNodes [.assign target op value]).Sublist
      (.assign target :: value.nodes) := by
    rw [Stmt.allNodes_singleton]
    exact List.Sublist.refl _
  rw [assign.eq_def]
  split
  · split
    · exact List.nil_sublist _
    · exact hkept
  · exact hkept

theorem nodes_loop (test : Expr) (body : List Stmt) :
    (Stmt.allNodes (loop test body)).Sublist (.plain :: (test.nodes ++ Stmt.allNodes body)) := by
  rw [loop.eq_def]
  split
  · exact List.nil_sublist _
  · rw [Stmt.allNodes_singleton]
    exact List.Sublist.refl _

theorem nodes_each (iterator : VarId) (collection : Expr) (body : List Stmt) :
    (Stmt.allNodes (each iterator collection body)).Sublist
      (.declare (.variable iterator) :: (collection.nodes ++ Stmt.allNodes body)) := by
  rw [each.eq_def]
  split
  · exact List.nil_sublist _
  · rw [Stmt.allNodes_singleton]
    exact List.Sublist.refl _

theorem nodes_branch (test : Expr) (body : List Stmt) (rest : Chain) :
    (branch test body rest).nodes.Sublist (test.nodes ++ Stmt.allNodes body ++ rest.nodes) := by
  rw [branch.eq_def]
  split
  · exact (List.sublist_append_right _ _).trans (List.sublist_append_left _ _)
  · exact List.sublist_append_right _ _
  · exact List.Sublist.refl _

/-- A branch that takes the place of its conditional does without the node of the latter. -/
theorem nodes_cond (c : Chain) : (Stmt.allNodes (cond c)).Sublist (.plain :: c.nodes) := by
  cases c with
  | finish => exact List.nil_sublist _
  | otherwise body => exact List.sublist_cons_self _ _
  | also test body rest =>
      rw [cond, Stmt.allNodes_singleton]
      exact List.Sublist.refl _

mutual

theorem nodes_stmt : ∀ s : Stmt, (Stmt.allNodes (stmt s)).Sublist s.nodes
  | .declare target init => by
      rw [stmt, Stmt.allNodes_singleton]
      exact (nodes_expr init).cons_cons _
  | .assign target op value => by
      rw [stmt]
      exact (nodes_assign _ _ _).trans ((nodes_expr value).cons_cons _)
  | .print argument => by
      rw [stmt, Stmt.allNodes_singleton]
      exact (nodes_expr argument).cons_cons _
  | .cond test body rest => by
      rw [stmt]
      have hparts := ((nodes_expr test).append (nodes_block body)).append (nodes_chain rest)
      exact (nodes_cond _).trans (((nodes_branch _ _ _).trans hparts).cons_cons _)
  | .loop test body => by
      rw [stmt]
      have hparts := (nodes_expr test).append (nodes_block body)
      exact (nodes_loop _ _).trans (hparts.cons_cons _)
  | .each iterator collection body => by
      rw [stmt]
      have hparts := (nodes_expr collection).append (nodes_block body)
      exact (nodes_each _ _ _).trans (hparts.cons_cons _)
  | .ret none => by
      rw [stmt, Stmt.allNodes_singleton]
      exact List.Sublist.refl _
  | .ret (some value) => by
      rw [stmt, Stmt.allNodes_singleton]
      exact (nodes_expr value).cons_cons _
  | .function id body => by
      rw [stmt, Stmt.allNodes_singleton]
      exact (nodes_block body).cons_cons _
  | .call callee args type => by
      rw [stmt, Stmt.allNodes_singleton]
      exact (nodes_exprs args).cons_cons _

theorem nodes_block : ∀ b : List Stmt, (Stmt.allNodes (block b)).Sublist (Stmt.allNodes b)
  | [] => by simp [block]
  | s :: rest => by
      rw [block, Stmt.allNodes_append]
      exact (nodes_stmt s).append (nodes_block rest)

theorem nodes_chain : ∀ c : Chain, (chain c).nodes.Sublist c.nodes
  | .finish => by simp [chain]
  | .otherwise body => by
      rw [chain]
      exact nodes_block body
  | .also test body rest => by
      rw [chain]
      have hparts := ((nodes_expr test).append (nodes_block body)).append (nodes_chain rest)
      exact (nodes_branch _ _ _).trans hparts

end

theorem nodes_program (p : Program) : (program p).nodes.Sublist p.nodes :=
  nodes_block p.statements

end Optimize
end Barista
