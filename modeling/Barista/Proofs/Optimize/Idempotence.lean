import Barista.Optimize.Statement
import Barista.Proofs.Core.Part
import Barista.Proofs.Optimize.Closedness
import Barista.Proofs.Double.Nearest
import Barista.Proofs.Analysis.Literal

/-!
# One pass is enough

An optimized program is left as it is when it is optimized again.  What a rewriting puts in the
place of an operation is an operand, a constant or a negation, and each of them stays; that the
negation stays is where the doubles have to be finite, because a zero less a literal folds whenever
the negated literal does.
-/

namespace Barista
namespace Optimize

open Barista.Core (Expr VarId Stmt Chain Program)

/-! ## Settled expressions -/

/-- All doubles in the expression are finite. -/
def FiniteIn (e : Expr) : Prop :=
  ∀ d, .double d ∈ e.parts → d.isFinite

/-- Finite, and optimized already. -/
structure Settled (e : Expr) : Prop where
  fixed : expr e = e
  finite : FiniteIn e

theorem Constant.settled {e : Expr} (h : Constant e) : Settled e := by
  cases h with
  | int n => exact ⟨by rw [expr], fun d hd ↦ by simp [Expr.parts] at hd⟩
  | bool b => exact ⟨by rw [expr], fun d hd ↦ by simp [Expr.parts] at hd⟩
  | double h =>
      refine ⟨by rw [expr], fun d hd ↦ ?_⟩
      rw [Expr.parts, List.mem_singleton] at hd
      cases hd
      exact h

theorem Settled.number_isFinite {e : Expr} {d : Double} (h : Settled e) (hd : e.number? = some d) :
    d.isFinite := by
  cases e with
  | int n =>
      cases hd
      exact Double.isFinite_ofInt n
  | double x =>
      cases hd
      exact h.finite _ (Expr.mem_parts_self _)
  | _ => cases hd

theorem settled_unary {op : UnaryOp} {operand : Expr} (h : Settled operand) (type : Ty) :
    Settled (unary op operand type) := by
  rw [unary]
  split
  · rename_i folded hfold
    rw [foldUnary?.eq_def] at hfold
    split at hfold
    · exact (constant_of_map_int hfold).settled
    · cases hfold
      have hd := h.number_isFinite rfl
      exact (Constant.double (by rwa [Double.isFinite_neg])).settled
    · cases hfold
  · rename_i hfold
    refine ⟨by rw [expr, h.fixed, unary, hfold], fun d hd ↦ h.finite d ?_⟩
    simpa [Expr.parts] using hd

theorem settled_ternary {test yes no : Expr} (htest : Settled test) (hyes : Settled yes)
    (hno : Settled no) (type : Ty) : Settled (ternary test yes no type) := by
  have hkept : ternary test yes no type = .ternary test yes no type →
      Settled (.ternary test yes no type) := by
    refine fun hsame ↦ ⟨by rw [expr, htest.fixed, hyes.fixed, hno.fixed, hsame], fun d hd ↦ ?_⟩
    simp only [Expr.parts, List.mem_cons, List.mem_append, reduceCtorEq, false_or] at hd
    obtain (hd | hd) | hd := hd
    · exact htest.finite d hd
    · exact hyes.finite d hd
    · exact hno.finite d hd
  cases test with
  | bool b =>
      cases b
      · exact hno
      · exact hyes
  | _ => exact hkept rfl

/-- The five things that an identity may give. -/
theorem identity_cases (op : BinaryOp) (left right : Expr) (type : Ty) :
    identity op left right type = left ∨ identity op left right type = right ∨
      identity op left right type = .int .one ∨
      (op = .sub ∧ left.isNumber .zero ∧
        identity op left right type = .unary .neg right type) ∨
      identity op left right type = .binary op left right type := by
  cases op with
  | lt | le | eq | ne | ge | gt => simp [identity]
  | add | mul | div | pow | and | or =>
      simp only [identity]
      split_ifs <;> simp
  | sub =>
      simp only [identity]
      split_ifs with hright hleft
      · exact .inl rfl
      · simp [hleft]
      · simp

theorem foldDouble?_sub_ne_none {z d : Double} (hz : z.eq .zero) (hd : d.isFinite) :
    foldDouble? .sub z d ≠ none := by
  simp [foldDouble?, finite?, Double.isFinite_sub hz hd]

/-- Where a zero less an operand does not fold, the operand has no folded negation. -/
theorem foldUnary?_neg_of_fold?_sub {left right : Expr} (hright : Settled right)
    (hzero : left.isNumber .zero) (hfold : fold? .sub left right = none) :
    foldUnary? .neg right = none := by
  obtain ⟨z, hz, heq⟩ : ∃ z, left.number? = some z ∧ z.eq .zero := by
    rw [Expr.isNumber] at hzero
    split at hzero
    · exact ⟨_, ‹_›, hzero⟩
    · cases hzero
  by_cases hnumber : ∃ d, right.number? = some d
  · obtain ⟨d, hd⟩ := hnumber
    have hdouble := foldDouble?_sub_ne_none heq (hright.number_isFinite hd)
    by_cases hints : ∃ a b, left = .int a ∧ right = .int b
    · obtain ⟨a, b, rfl, rfl⟩ := hints
      -- Two whole numbers: the zero is exact, so the difference is the negation.
      have ha : a.toInt = 0 := by
        cases hz
        exact Double.toInt_eq_zero_of_eq a heq
      have hnone : a.sub? b = none := Option.map_eq_none_iff.1 hfold
      rw [Whole.sub?, ha, Int.zero_sub] at hnone
      exact Option.map_eq_none_iff.2 hnone
    · rw [fold?.eq_def] at hfold
      split at hfold
      · exact absurd ⟨_, _, rfl, rfl⟩ hints
      · simp [hz, hd, hdouble] at hfold
  · cases right with
    | int n => exact absurd ⟨_, rfl⟩ hnumber
    | double d => exact absurd ⟨_, rfl⟩ hnumber
    | _ => rfl

theorem settled_binary {op : BinaryOp} {left right : Expr} (hleft : Settled left)
    (hright : Settled right) (type : Ty) : Settled (binary op left right type) := by
  have hbinary : binary op left right type =
      (fold? op left right).getD (identity op left right type) := by
    rw [binary]
    split <;> simp [*]
  cases hfold : fold? op left right with
  | some folded =>
      rw [hbinary, hfold]
      exact (constant_of_fold? hfold).settled
  | none =>
      rw [hfold, Option.getD_none] at hbinary
      rw [hbinary]
      obtain h | h | h | ⟨rfl, hzero, h⟩ | h := identity_cases op left right type
      · rwa [h]
      · rwa [h]
      · rw [h]
        exact (Constant.int .one).settled
      · have hneg := foldUnary?_neg_of_fold?_sub hright hzero hfold
        have hsettled : Settled (unary .neg right type) := settled_unary hright type
        rw [unary, hneg] at hsettled
        rwa [h]
      · rw [h] at hbinary ⊢
        refine ⟨by rw [expr, hleft.fixed, hright.fixed, hbinary], fun d hd ↦ ?_⟩
        simp only [Expr.parts, List.mem_cons, List.mem_append, reduceCtorEq, false_or] at hd
        exact hd.elim (hleft.finite d) (hright.finite d)

mutual

theorem settled_expr : ∀ e : Expr, FiniteIn e → Settled (expr e)
  | .int n, _ => by
      rw [expr]
      exact (Constant.int n).settled
  | .double d, h => by
      rw [expr]
      exact (Constant.double (h d (Expr.mem_parts_self _))).settled
  | .bool b, _ => by
      rw [expr]
      exact (Constant.bool b).settled
  | .string s, h => by
      rw [expr]
      exact ⟨by rw [expr], h⟩
  | .var id, h => by
      rw [expr]
      exact ⟨by rw [expr], h⟩
  | .binary op l r type, h => by
      rw [expr]
      have hl := settled_expr l fun d hd ↦ h d (by simp [Expr.parts, hd])
      have hr := settled_expr r fun d hd ↦ h d (by simp [Expr.parts, hd])
      exact settled_binary hl hr type
  | .unary op e type, h => by
      rw [expr]
      exact settled_unary (settled_expr e fun d hd ↦ h d (by simp [Expr.parts, hd])) type
  | .ternary c y n type, h => by
      rw [expr]
      have hc := settled_expr c fun d hd ↦ h d (by simp [Expr.parts, hd])
      have hy := settled_expr y fun d hd ↦ h d (by simp [Expr.parts, hd])
      have hn := settled_expr n fun d hd ↦ h d (by simp [Expr.parts, hd])
      exact settled_ternary hc hy hn type
  | .call callee args type, h => by
      rw [expr]
      obtain ⟨hfixed, hfinite⟩ := settled_exprs args fun d hd ↦ h d (by simp [Expr.parts, hd])
      exact ⟨by rw [expr, hfixed], fun d hd ↦ hfinite d (by simpa [Expr.parts] using hd)⟩
  | .index a i type, h => by
      rw [expr]
      have ha := settled_expr a fun d hd ↦ h d (by simp [Expr.parts, hd])
      have hi := settled_expr i fun d hd ↦ h d (by simp [Expr.parts, hd])
      refine ⟨by rw [expr, ha.fixed, hi.fixed], fun d hd ↦ ?_⟩
      simp only [Expr.parts, List.mem_cons, List.mem_append, reduceCtorEq, false_or] at hd
      exact hd.elim (ha.finite d) (hi.finite d)
  | .array items type, h => by
      rw [expr]
      obtain ⟨hfixed, hfinite⟩ := settled_exprs items fun d hd ↦ h d (by simp [Expr.parts, hd])
      exact ⟨by rw [expr, hfixed], fun d hd ↦ hfinite d (by simpa [Expr.parts] using hd)⟩

theorem settled_exprs : ∀ es : List Expr, (∀ d, .double d ∈ Expr.allParts es → d.isFinite) →
    exprs (exprs es) = exprs es ∧ ∀ d, .double d ∈ Expr.allParts (exprs es) → d.isFinite
  | [], h => by
      rw [exprs]
      exact ⟨rfl, h⟩
  | e :: es, h => by
      have he := settled_expr e fun d hd ↦ h d (by simp [Expr.allParts, hd])
      obtain ⟨hfixed, hfinite⟩ := settled_exprs es fun d hd ↦ h d (by simp [Expr.allParts, hd])
      rw [exprs]
      refine ⟨by rw [exprs, he.fixed, hfixed], fun d hd ↦ ?_⟩
      rw [Expr.allParts, List.mem_append] at hd
      exact hd.elim (he.finite d) (hfinite d)

end

/-! ## Settled statements -/

theorem block_singleton (s : Stmt) : block [s] = stmt s := by
  rw [block, block, List.append_nil]

theorem block_assign {target : VarId} {op : AssignOp} {value : Expr} (h : expr value = value) :
    block (assign target op value) = assign target op value := by
  have hkept : assign target op value = [.assign target op value] →
      block (assign target op value) = assign target op value := by
    intro hsame
    rw [hsame, block_singleton, stmt, h, hsame]
  rw [assign.eq_def] at hkept ⊢
  split at hkept
  · split_ifs with hid
    · rw [block]
    · rw [if_neg hid] at hkept
      exact hkept rfl
  · exact hkept rfl

theorem block_loop {test : Expr} {body : List Stmt} (htest : expr test = test)
    (hbody : block body = body) : block (loop test body) = loop test body := by
  by_cases hfalse : test.bool? = some false
  · rw [loop_eq, if_pos hfalse, block]
  · have hkept : loop test body = [.loop test body] := by rw [loop_eq, if_neg hfalse]
    rw [hkept, block_singleton, stmt, htest, hbody, hkept]

theorem block_each {iterator : VarId} {collection : Expr} {body : List Stmt}
    (hcollection : expr collection = collection) (hbody : block body = body) :
    block (each iterator collection body) = each iterator collection body := by
  by_cases hempty : isEmptyArray collection
  · rw [each_eq, if_pos hempty, block]
  · have hkept : each iterator collection body = [.each iterator collection body] := by
      rw [each_eq, if_neg hempty]
    rw [hkept, block_singleton, stmt, hcollection, hbody, hkept]

theorem chain_branch {test : Expr} {body : List Stmt} {rest : Chain} (htest : expr test = test)
    (hbody : block body = body) (hrest : chain rest = rest) :
    chain (branch test body rest) = branch test body rest := by
  have hkept : chain (.also test body rest) = branch test body rest := by
    rw [chain, htest, hbody, hrest]
  rw [branch_eq] at hkept ⊢
  split_ifs at hkept ⊢
  · rw [chain, hbody]
  · exact hrest
  · exact hkept

theorem block_cond {c : Chain} (h : chain c = c) : block (cond c) = cond c := by
  cases c with
  | finish => rw [cond, block]
  | otherwise body =>
      rw [chain, Chain.otherwise.injEq] at h
      rw [cond, h]
  | also test body rest =>
      rw [chain] at h
      rw [cond, block_singleton, stmt, h, cond]

mutual

theorem block_stmt : ∀ s : Stmt, (∀ e ∈ s.exprs, FiniteIn e) → block (stmt s) = stmt s
  | .declare target init, h => by
      have hinit := settled_expr init (h init (by simp [Stmt.exprs]))
      rw [stmt, block_singleton, stmt, hinit.fixed]
  | .assign target op value, h => by
      have hvalue := settled_expr value (h value (by simp [Stmt.exprs]))
      rw [stmt, block_assign hvalue.fixed]
  | .print argument, h => by
      have hargument := settled_expr argument (h argument (by simp [Stmt.exprs]))
      rw [stmt, block_singleton, stmt, hargument.fixed]
  | .cond test body rest, h => by
      have htest := settled_expr test (h test (by simp [Stmt.exprs]))
      have hbody := block_block body fun e he ↦ h e (by simp [Stmt.exprs, he])
      have hrest := chain_chain rest fun e he ↦ h e (by simp [Stmt.exprs, he])
      rw [stmt, block_cond (chain_branch htest.fixed hbody hrest)]
  | .loop test body, h => by
      have htest := settled_expr test (h test (by simp [Stmt.exprs]))
      have hbody := block_block body fun e he ↦ h e (by simp [Stmt.exprs, he])
      rw [stmt, block_loop htest.fixed hbody]
  | .each iterator collection body, h => by
      have hcollection := settled_expr collection (h collection (by simp [Stmt.exprs]))
      have hbody := block_block body fun e he ↦ h e (by simp [Stmt.exprs, he])
      rw [stmt, block_each hcollection.fixed hbody]
  | .ret none, _ => by rw [stmt, block_singleton, Option.map_none, stmt, Option.map_none]
  | .ret (some value), h => by
      have hvalue := settled_expr value (h value (by simp [Stmt.exprs]))
      rw [stmt, block_singleton, Option.map_some, stmt, Option.map_some, hvalue.fixed]
  | .function id body, h => by
      have hbody := block_block body h
      rw [stmt, block_singleton, stmt, hbody]
  | .call callee args type, h => by
      have hcall := settled_expr _ (h (.call callee args type) (by simp [Stmt.exprs]))
      have hargs := hcall.fixed
      rw [expr, expr, Expr.call.injEq] at hargs
      rw [stmt, block_singleton, stmt, hargs.2.1]

theorem block_block : ∀ b : List Stmt, (∀ e ∈ Stmt.allExprs b, FiniteIn e) →
    block (block b) = block b
  | [], _ => by rw [block, block]
  | s :: rest, h => by
      have hs := block_stmt s fun e he ↦ h e (by simp [Stmt.allExprs, he])
      have hrest := block_block rest fun e he ↦ h e (by simp [Stmt.allExprs, he])
      rw [block, block_append, hs, hrest]

theorem chain_chain : ∀ c : Chain, (∀ e ∈ c.exprs, FiniteIn e) → chain (chain c) = chain c
  | .finish, _ => by rw [chain, chain]
  | .otherwise body, h => by
      have hbody := block_block body h
      rw [chain, chain, hbody]
  | .also test body rest, h => by
      have htest := settled_expr test (h test (by simp [Chain.exprs]))
      have hbody := block_block body fun e he ↦ h e (by simp [Chain.exprs, he])
      have hrest := chain_chain rest fun e he ↦ h e (by simp [Chain.exprs, he])
      rw [chain, chain_branch htest.fixed hbody hrest]

end

theorem program_program {p : Program} (h : ∀ d, .double d ∈ p.parts → d.isFinite) :
    program (program p) = program p := by
  have hexprs : ∀ e ∈ Stmt.allExprs p.statements, FiniteIn e := fun e he d hd ↦
    h d (Expr.mem_allParts_iff.2 ⟨e, he, hd⟩)
  have hblock := block_block p.statements hexprs
  exact congrArg (fun statements ↦ { p with statements }) hblock

/-- Optimizing again changes nothing, in the program of a text and in every program whose doubles
are finite, typed or not. -/
theorem program_idempotent :
    (∀ source p, analyze source = .ok p →
      program (program p) = program p ∧ (program p).entities = p.entities) ∧
    (∀ p : Program, (∀ d, .double d ∈ p.parts → d.isFinite) →
      program (program p) = program p ∧ (program p).entities = p.entities) := by
  refine ⟨fun source p h ↦ ⟨?_, rfl⟩, fun p h ↦ ⟨program_program h, rfl⟩⟩
  exact program_program fun d hd ↦ isFinite_of_analyze h hd

/-- The first pass makes a negation of `0 - x`.  Of the least integer, which has no negative,
neither the difference nor the negation folds. -/
theorem program_idempotent_least :
    ∃ p, analyze ("print(0 - (0 - 9223372036854775807 - 1))\n" ++
        "if false \x7b\n  print(1)\n\x7d else if 1 < 2 \x7b\n  print(0 - 1.5)\n\x7d") = .ok p ∧
      Script.generate (program p) =
        ["console.log((-(-9223372036854775808)));", "console.log((-1.5));"] ∧
      program (program p) = program p ∧ (program p).entities = p.entities := by
  refine (exists_of_toOption (P := fun p ↦ Script.generate (program p) =
      ["console.log((-(-9223372036854775808)));", "console.log((-1.5));"]) ?_).imp
    fun p ⟨h, hlines⟩ ↦ ⟨h, hlines, program_idempotent.1 _ p h⟩
  decide +kernel

end Optimize
end Barista
