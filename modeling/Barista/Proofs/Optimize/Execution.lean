import Barista.Optimize.Statement
import Barista.Proofs.Core.Execution
import Barista.Proofs.Optimize.Denotation

/-!
# Optimization keeps what a block does

Where every expression has the outcomes that its optimized form has, so has every block.  A
statement becomes a block that does the same, and a chain of branches keeps its effect whichever of
them are left out, promoted or turned into the last one.
-/

namespace Barista
namespace Optimize

open Barista.Core (Expr VarId Stmt Chain Machine State Outcome)
open Barista.Core.Machine (exec execBlock execChain execBlock_singleton execBlock_append)

variable {Value : Type} {M : Machine Value}

/-! ## One statement -/

theorem execBlock_assign (target : VarId) (op : AssignOp) (value : Expr) :
    M.execBlock (assign target op value) = M.exec (.assign target op value) := by
  rw [assign.eq_def]
  split
  · split_ifs with hid
    · rw [hid, Machine.exec_assign_self, execBlock]
    · rw [execBlock_singleton]
  · rw [execBlock_singleton]

theorem execBlock_loop (test : Expr) (body : List Stmt) :
    M.execBlock (loop test body) = M.exec (.loop test body) := by
  rw [loop.eq_def]
  split
  · rw [exec, Machine.loop_false, execBlock]
  · rw [execBlock_singleton]

theorem execBlock_each (iterator : VarId) (collection : Expr) (body : List Stmt) :
    M.execBlock (each iterator collection body) = M.exec (.each iterator collection body) := by
  rw [each.eq_def]
  split
  · rw [Machine.exec_each_emptyArray, execBlock]
  · rw [execBlock_singleton]

theorem execChain_branch (test : Expr) (body : List Stmt) (rest : Chain) :
    M.execChain (branch test body rest) = M.execChain (.also test body rest) := by
  rw [branch.eq_def]
  split
  · rw [execChain, execChain, Machine.choose_true]
  · rw [execChain, Machine.choose_false]
  · rfl

theorem execBlock_cond (c : Chain) : M.execBlock (cond c) = M.execChain c := by
  cases c with
  | finish => rw [cond, execBlock, execChain]
  | otherwise body => rw [cond, execChain]
  | also test body rest => rw [cond, execBlock_singleton, exec, execChain]

/-! ## Whole blocks -/

mutual

theorem execBlock_stmt : ∀ s : Stmt, (∀ e ∈ s.exprs, M.eval (expr e) = M.eval e) →
    M.execBlock (stmt s) = M.exec s
  | .declare target init, h => by
      have hinit := h init (by simp [Stmt.exprs])
      rw [stmt, execBlock_singleton, exec, exec, hinit]
  | .assign target op value, h => by
      have hvalue := h value (by simp [Stmt.exprs])
      rw [stmt, execBlock_assign, exec, exec, hvalue]
  | .print argument, h => by
      have hargument := h argument (by simp [Stmt.exprs])
      rw [stmt, execBlock_singleton, exec, exec, hargument]
  | .cond test body rest, h => by
      have htest := h test (by simp [Stmt.exprs])
      have hbody := execBlock_block body fun e he ↦ h e (by simp [Stmt.exprs, he])
      have hrest := execChain_chain rest fun e he ↦ h e (by simp [Stmt.exprs, he])
      rw [stmt, execBlock_cond, execChain_branch, execChain, exec, hbody, hrest, htest]
  | .loop test body, h => by
      have htest := h test (by simp [Stmt.exprs])
      have hbody := execBlock_block body fun e he ↦ h e (by simp [Stmt.exprs, he])
      rw [stmt, execBlock_loop, exec, exec, hbody, htest]
  | .each iterator collection body, h => by
      have hcollection := h collection (by simp [Stmt.exprs])
      have hbody := execBlock_block body fun e he ↦ h e (by simp [Stmt.exprs, he])
      rw [stmt, execBlock_each, exec, exec, hbody, hcollection]
  | .ret none, _ => by rw [stmt, execBlock_singleton, Option.map_none]
  | .ret (some value), h => by
      have hvalue := h value (by simp [Stmt.exprs])
      rw [stmt, execBlock_singleton, Option.map_some, exec, exec, hvalue]
  | .function id body, _ => by rw [stmt, execBlock_singleton, exec, exec]
  | .call callee args type, h => by
      have hcall := h (.call callee args type) (by simp [Stmt.exprs])
      rw [expr] at hcall
      rw [stmt, execBlock_singleton, exec, exec, hcall]

theorem execBlock_block : ∀ b : List Stmt, (∀ e ∈ Stmt.allExprs b, M.eval (expr e) = M.eval e) →
    M.execBlock (block b) = M.execBlock b
  | [], _ => by rw [block]
  | s :: rest, h => by
      have hs := execBlock_stmt s fun e he ↦ h e (by simp [Stmt.allExprs, he])
      have hrest := execBlock_block rest fun e he ↦ h e (by simp [Stmt.allExprs, he])
      rw [block, execBlock_append, hs, hrest, execBlock]

theorem execChain_chain : ∀ c : Chain, (∀ e ∈ c.exprs, M.eval (expr e) = M.eval e) →
    M.execChain (chain c) = M.execChain c
  | .finish, _ => by rw [chain]
  | .otherwise body, h => by
      have hbody := execBlock_block body h
      rw [chain, execChain, execChain, hbody]
  | .also test body rest, h => by
      have htest := h test (by simp [Chain.exprs])
      have hbody := execBlock_block body fun e he ↦ h e (by simp [Chain.exprs, he])
      have hrest := execChain_chain rest fun e he ↦ h e (by simp [Chain.exprs, he])
      rw [chain, execChain_branch, execChain, execChain, hbody, hrest, htest]

end

/-- Whatever the evaluator, an optimized block has the outcomes that the block had: the same
returned values or none, with the same stores and outputs. -/
theorem outcomes_block (M : Machine Value) (b : List Stmt)
    (h : ∀ e ∈ Stmt.allExprs b, ∀ s v t, M.eval (expr e) s v t ↔ M.eval e s v t)
    (s : State Value) (o : Outcome Value) (t : State Value) :
    M.execBlock (block b) s o t ↔ M.execBlock b s o t := by
  have heval : ∀ e ∈ Stmt.allExprs b, M.eval (expr e) = M.eval e := by
    intro e he
    funext s v t
    exact propext (h e he s v t)
  rw [execBlock_block b heval]

/-- A chain with a folded test, one that is not known and one that always holds, around a loop that
is never entered, a loop over nothing and an assignment without effect. -/
theorem outcomes_block_dead :
    let test : Expr := .binary .gt (.int .one) (.int ⟨2, by decide, by decide⟩) .bool
    let body : List Stmt :=
      [.loop (.bool false) [.print (.var ⟨1⟩)],
        .each ⟨2⟩ (.array [] (.array .int)) [.print (.var ⟨2⟩)],
        .assign ⟨1⟩ .set (.var ⟨1⟩),
        .ret (some (.var ⟨1⟩))]
    let b : List Stmt :=
      [.cond test [.print (.int .one)] (.also (.var ⟨0⟩) body
        (.also (.bool true) [.call ⟨0⟩ [.var ⟨1⟩] .int] (.otherwise [.print (.var ⟨0⟩)])))]
    (∀ e ∈ Stmt.allExprs b, ∀ s v t,
        Rational.machine.eval (expr e) s v t ↔ Rational.machine.eval e s v t) ∧
      block b = [.cond (.var ⟨0⟩) [.ret (some (.var ⟨1⟩))]
        (.otherwise [.call ⟨0⟩ [.var ⟨1⟩] .int])] ∧
      ∀ s o t, Rational.machine.execBlock (block b) s o t ↔ Rational.machine.execBlock b s o t := by
  intro test body b
  have htest (s : State Rational.Value) : Rational.model.eval Rational.call s.store (expr test) =
      Rational.model.eval Rational.call s.store test :=
    eval_binary .bool nofun nofun (by decide +kernel) nofun
  -- Behind the first test, every expression is its own optimized form.
  have hothers : ∀ e ∈ (Stmt.allExprs b).tail, expr e = id e := List.map_inj_left.1 rfl
  have hexprs : ∀ e ∈ Stmt.allExprs b, ∀ s v t,
      Rational.machine.eval (expr e) s v t ↔ Rational.machine.eval e s v t := by
    refine List.forall_mem_cons.2 ⟨fun s v t ↦ ?_, fun e he s v t ↦ ?_⟩
    · exact Iff.of_eq (congrArg (· = (v, t)) (congrFun (htest s) s))
    · rw [hothers e he, id]
  refine ⟨hexprs, ?_, outcomes_block _ b hexprs⟩
  have hless : (Double.ofInt 2).lt (Double.ofInt 1) = false := by decide +kernel
  have hfolded : expr test = .bool false := congrArg Expr.bool hless
  rw [block, block, stmt, hfolded]
  rfl

end Optimize
end Barista
