import Barista.Proofs.Optimize.Denotation

/-!
# Calls under optimization

An expression is evaluated with a history of calls that each call extends, and the result of a call
may be chosen freely by all that was called before.  Optimization keeps the history where the
operands that it leaves out call nothing.  It does not look at what it leaves out: a product with
zero becomes zero, also when the other factor is a call.
-/

namespace Barista
namespace Core

variable {Number Other State : Type}

structure Call (Number Other : Type) where
  callee : FunId
  args : List (Value Number Other)
deriving DecidableEq, Repr

/-- Puts a call behind those made before, which settle its result. -/
def record (results : List (Call Number Other) → Call Number Other → Value Number Other) :
    Callee Number Other (List (Call Number Other)) :=
  fun callee args history ↦ (results history ⟨callee, args⟩, history ++ [⟨callee, args⟩])

def Entity.isVariable : Entity → Bool
  | .variable _ => true
  | .function _ => false

theorem Expr.callFree_iff {e : Expr} :
    e.CallFree ↔ ∀ entity ∈ e.refs, entity.isVariable = true := by
  constructor
  · intro h entity hentity
    rcases entity with id | id
    · rfl
    · exact (h id hentity).elim
  · intro h callee hcallee
    cases h _ hcallee

instance (e : Expr) : Decidable e.CallFree :=
  decidable_of_iff _ Expr.callFree_iff.symm

namespace Model

/-! ## Results that only depend on the call -/

variable {M : Model Number Other}

theorem operate_fst {State' : Type} {op : BinaryOp} {left : Value Number Other × State}
    {left' : Value Number Other × State'} {right : State → Value Number Other × State}
    {right' : State' → Value Number Other × State'} (hleft : left.1 = left'.1)
    (hright : ∀ s s', (right s).1 = (right' s').1) :
    (M.operate op left right).1 = (M.operate op left' right').1 := by
  obtain ⟨v, s⟩ := left
  obtain ⟨v', s'⟩ := left'
  cases hleft
  cases hop : op.isLogical with
  | false =>
      rw [operate_of_strict M hop, operate_of_strict M hop]
      exact congrArg (M.binary op v) (hright s s')
  | true =>
      cases op with
      | and =>
          rcases v with (_ | _) | _ | _
          · rfl
          · exact hright s s'
          · rfl
          · rfl
      | or =>
          rcases v with (_ | _) | _ | _
          · exact hright s s'
          · rfl
          · rfl
          · rfl
      | _ => cases hop

theorem choose_fst {State' : Type} {test : Value Number Other × State}
    {test' : Value Number Other × State'} {yes no : State → Value Number Other × State}
    {yes' no' : State' → Value Number Other × State'} (htest : test.1 = test'.1)
    (hyes : ∀ s s', (yes s).1 = (yes' s').1) (hno : ∀ s s', (no s).1 = (no' s').1) :
    (choose test yes no).1 = (choose test' yes' no').1 := by
  obtain ⟨v, s⟩ := test
  obtain ⟨v', s'⟩ := test'
  cases htest
  rcases v with (_ | _) | _ | _
  · exact hno s s'
  · exact hyes s s'
  · exact hno s s'
  · exact hno s s'

section

variable {call : Callee Number Other State}
  {f : FunId → List (Value Number Other) → Value Number Other} {ρ : VarId → Value Number Other}

mutual

/-- Where the result of a call is a function of its arguments, whatever else calls do, the value of
an expression is what it denotes. -/
theorem eval_fst (hcall : ∀ callee args s, (call callee args s).1 = f callee args) :
    ∀ (e : Expr) (s : State), (M.eval call ρ e s).1 = M.denote f ρ e
  | .int _, _ | .double _, _ | .bool _, _ | .string _, _ | .var _, _ => rfl
  | .binary op l r type, s => by
      rw [denote, eval, eval]
      exact operate_fst (eval_fst hcall l s) fun s _ ↦ eval_fst hcall r s
  | .unary op e type, s => by
      rw [denote, eval, eval]
      exact congrArg (M.unary op) (eval_fst hcall e s)
  | .ternary c y n type, s => by
      rw [denote, eval, eval]
      exact choose_fst (eval_fst hcall c s) (fun s _ ↦ eval_fst hcall y s) fun s _ ↦
        eval_fst hcall n s
  | .call callee args type, s => by
      rw [denote, eval, eval, hcall]
      exact congrArg (f callee) (evalAll_fst hcall args s)
  | .index a i type, s => by
      rw [denote, eval, eval]
      exact congrArg₂ M.index (eval_fst hcall a s) (eval_fst hcall i _)
  | .array items type, s => by
      rw [denote, eval, eval]
      exact congrArg M.array (evalAll_fst hcall items s)

theorem evalAll_fst (hcall : ∀ callee args s, (call callee args s).1 = f callee args) :
    ∀ (es : List Expr) (s : State), (M.evalAll call ρ es s).1 =
      (M.evalAll (fun callee args (s : Unit) ↦ (f callee args, s)) ρ es ()).1
  | [], _ => rfl
  | e :: es, s => by
      rw [evalAll, evalAll]
      exact congrArg₂ List.cons (eval_fst hcall e s) (evalAll_fst hcall es _)

end

theorem RespectsTypes.fits_eval {entities : Entities} {e : Expr}
    (h : M.RespectsTypes f ρ entities e)
    (hcall : ∀ callee args s, (call callee args s).1 = f callee args) :
    ∀ part ∈ e.parts, ∀ s, (M.eval call ρ part s).1.fits (part.type entities) = true := by
  intro part hpart s
  rw [eval_fst hcall]
  exact h part hpart

end

end Model
end Core

namespace Optimize

open Barista.Core (Expr VarId FunId Value Model Call record)

variable {Number Other : Type}

/-- Whatever the calls return, evaluation of an expression of an accepted program makes the same
calls as before and has the same value, if no operand with a call is left out. -/
theorem calls_of_analyze {source : String} {p : Core.Program} (h : analyze source = .ok p)
    {e : Expr} (he : e ∈ p.parts) (M : Model Number Other)
    (results : List (Call Number Other) → Call Number Other → Value Number Other)
    (ρ : VarId → Value Number Other)
    (htypes : ∀ part ∈ e.parts, ∀ history,
      (M.eval (record results) ρ part history).1.fits (part.type p.entities) = true)
    (hfolds : AgreesWithin M e)
    (hdropped : ∀ part ∈ e.parts, ∀ dropped ∈ droppedAt part, dropped.CallFree) :
    ∀ history,
      M.eval (record results) ρ (expr e) history = M.eval (record results) ρ e history := by
  obtain ⟨hint, type, htype⟩ := wellTyped_of_mem_parts h he
  have hsound : Sound M (record results) ρ p.entities e :=
    { typed := htype.wellTyped_part
      fits := htypes
      agrees := hfolds
      silent := fun part hpart dropped hdrop ↦
        Model.silent_of_callFree dropped (hdropped part hpart dropped hdrop) }
  exact congrFun (eval_expr e hsound)

/-- The calls of both branches are kept, although operands around them are left out. -/
theorem calls_of_analyze_branches :
    let f : FunId → List Rational.Value → Rational.Value := fun _ args ↦ args.headD (.number 0)
    let call := record fun _ (c : Call ℚ (List ℚ)) ↦ f c.callee c.args
    let ρ : VarId → Rational.Value := fun id ↦ if id.index = 1 then .number 3 else .bool true
    ∃ p, analyze ("func f(n: int) -> int \x7b\n  return n\n\x7d\nint x = 3\nbool b = x > 2\n" ++
        "print(b && true ? f(x) + x * 0 : f(1 ^ x))") = .ok p ∧
      ∃ e ∈ p.parts, (∀ part ∈ e.parts, ∀ history,
          (Rational.model.eval call ρ part history).1.fits (part.type p.entities) = true) ∧
        AgreesWithin Rational.model e ∧
        (∀ part ∈ e.parts, ∀ dropped ∈ droppedAt part, dropped.CallFree) ∧
        (expr e).parts.length + 8 = e.parts.length ∧
        ∀ history, Rational.model.eval call ρ (expr e) history =
          Rational.model.eval call ρ e history := by
  intro f call ρ
  refine (exists_of_toOption (P := fun p ↦ ∃ e ∈ p.parts,
    Rational.model.RespectsTypes f ρ p.entities e ∧ AgreesWithin Rational.model e ∧
      (∀ part ∈ e.parts, ∀ dropped ∈ droppedAt part, dropped.CallFree) ∧
      (expr e).parts.length + 8 = e.parts.length) ?_).imp
    fun p ⟨h, e, he, htypes, hfolds, hdropped, hlength⟩ ↦
      have hfits := htypes.fits_eval fun _ _ _ ↦ rfl
      ⟨h, e, he, hfits, hfolds, hdropped, hlength,
        calls_of_analyze h he _ _ ρ hfits hfolds hdropped⟩
  decide +kernel

/-- The call in `f() * 0` is made before optimization and not after it. -/
theorem calls_absorbed :
    let f : FunId → List Rational.Value → Rational.Value := fun _ _ ↦ .number 2
    let call := record fun _ (c : Call ℚ (List ℚ)) ↦ f c.callee c.args
    let ρ : VarId → Rational.Value := fun _ ↦ .number 0
    ∃ p, analyze "func f() -> int \x7b\n  print(1)\n  return 2\n\x7d\nprint(f() * 0)" = .ok p ∧
      ∃ e ∈ p.parts, Rational.model.RespectsTypes f ρ p.entities e ∧
        AgreesWithin Rational.model e ∧
        (Rational.model.eval call ρ e []).2 = [⟨⟨0⟩, []⟩] ∧
        (Rational.model.eval call ρ (expr e) []).2 = [] := by
  intro f call ρ
  refine exists_of_toOption ?_
  decide +kernel

end Optimize
end Barista
