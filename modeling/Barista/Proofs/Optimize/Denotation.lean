import Barista.Proofs.Core.Rational
import Barista.Proofs.Optimize.Evaluation

/-!
# Optimization keeps what an expression denotes

Where calls are functions of their arguments, an expression denotes a value in every model, and
optimization keeps that value.  The model need agree only with the folds that are made in the
expression: none agrees with all of them, because a fold of doubles may round.
-/

namespace Barista
namespace Core
namespace Model

variable {Number Other : Type}

/-- The value of an expression where calls are functions of their arguments. -/
def denote (M : Model Number Other)
    (call : FunId → List (Value Number Other) → Value Number Other)
    (ρ : VarId → Value Number Other) (e : Expr) : Value Number Other :=
  (M.eval (fun callee args (s : Unit) ↦ (call callee args, s)) ρ e ()).1

/-- All that stands in the expression denotes a value of the kind that its type promises. -/
def RespectsTypes (M : Model Number Other)
    (call : FunId → List (Value Number Other) → Value Number Other)
    (ρ : VarId → Value Number Other) (entities : Entities) (e : Expr) : Prop :=
  ∀ part ∈ e.parts, (M.denote call ρ part).fits (part.type entities) = true

instance (M : Model Number Other)
    (call : FunId → List (Value Number Other) → Value Number Other)
    (ρ : VarId → Value Number Other) (entities : Entities) (e : Expr) :
    Decidable (M.RespectsTypes call ρ entities e) :=
  inferInstanceAs (Decidable (∀ part ∈ e.parts, _))

end Model
end Core

namespace Optimize

open Barista.Core (Expr VarId FunId Value Model)

variable {Number Other : Type}

/-- The model agrees with every fold that is made in the expression. -/
def AgreesWithin (M : Model Number Other) (e : Expr) : Prop :=
  ∀ part ∈ e.parts, AgreesAt M part

section

variable [DecidableEq Number] [DecidableEq Other] (M : Model Number Other)

instance (op : BinaryOp) (left right : Expr) : Decidable (AgreesBinary M op left right) :=
  inferInstanceAs (Decidable (∀ folded ∈ fold? op left right, _))

instance (op : UnaryOp) (operand : Expr) : Decidable (AgreesUnary M op operand) :=
  inferInstanceAs (Decidable (∀ folded ∈ foldUnary? op operand, _))

instance : (e : Expr) → Decidable (AgreesAt M e)
  | .binary op l r _ => inferInstanceAs (Decidable (AgreesBinary M op (expr l) (expr r)))
  | .unary op e _ => inferInstanceAs (Decidable (AgreesUnary M op (expr e)))
  | .int _ | .double _ | .bool _ | .string _ | .var _ | .ternary _ _ _ _ | .call _ _ _
  | .index _ _ _ | .array _ _ => inferInstanceAs (Decidable True)

instance (e : Expr) : Decidable (AgreesWithin M e) :=
  inferInstanceAs (Decidable (∀ part ∈ e.parts, _))

end

/-- Where the operands are numbers, agreement is an equation between values. -/
theorem AgreesBinary.eq_binary {M : Model Number Other} {op : BinaryOp} {left right folded : Expr}
    (h : AgreesBinary M op left right) (hfold : fold? op left right = some folded)
    {a b v : Value Number Other} (hleft : M.literal? left = some a)
    (hright : M.literal? right = some b) (hfolded : M.literal? folded = some v) :
    v = M.binary op a b := by
  have hagrees := h folded hfold
  rw [hleft, hright, hfolded] at hagrees
  exact Option.some.inj hagrees

/-- The sums of the double zero with `2 ^ 53` and with its successor are rounded to one number.  If
numbers agreed with that, zero would be one, but comparisons tell the two apart. -/
theorem exists_not_agreesBinary (M : Model Number Other) :
    ∃ op left right, ¬ AgreesBinary M op left right := by
  by_contra! h
  let n : Whole := ⟨9007199254740992, by decide, by decide⟩
  let m : Whole := ⟨9007199254740993, by decide, by decide⟩
  let zero : Whole := ⟨0, by decide, by decide⟩
  let d : Double := ⟨0x4340000000000000⟩
  have hzero : M.literal? (.double .zero) = some (.number M.zero) :=
    M.literal?_of_isNumber_zero (by decide +kernel)
  have hrounded (k : Whole) (hk : (Double.ofInt k.toInt).add .zero = d) : M.double d = M.int k := by
    have hfold : fold? .add (.int k) (.double .zero) = some (.double d) := by
      change finite? ((Double.ofInt k.toInt).add .zero) = _
      rw [hk, finite?, if_pos (by decide +kernel)]
    have hsum := (h .add (.int k) (.double .zero)).eq_binary hfold rfl hzero rfl
    rw [M.add_zero] at hsum
    exact Value.number.inj hsum
  have heq : M.int m = M.int n :=
    (hrounded m (by decide +kernel)).symm.trans (hrounded n (by decide +kernel))
  have hdifference : fold? .sub (.int m) (.int n) = some (.int .one) := rfl
  have hnone : fold? .sub (.int n) (.int n) = some (.int zero) := rfl
  have hsame : M.int .one = M.int zero := by
    have hm := (h .sub (.int m) (.int n)).eq_binary hdifference rfl rfl rfl
    have hn := (h .sub (.int n) (.int n)).eq_binary hnone rfl rfl rfl
    rw [heq, ← hn] at hm
    exact Value.number.inj hm
  have hless (k : Whole) : Value.bool ((Double.ofInt zero.toInt).lt (Double.ofInt k.toInt)) =
      M.binary .lt (.number (M.int zero)) (.number (M.int k)) :=
    (h .lt (.int zero) (.int k)).eq_binary rfl rfl rfl rfl
  have hlt : (Double.ofInt 0).lt (Double.ofInt 1) = (Double.ofInt 0).lt (Double.ofInt 0) := by
    refine Value.bool.inj ((hless .one).trans ?_)
    rw [hsame]
    exact (hless zero).symm
  exact absurd hlt (by decide +kernel)

/-- Whatever the model, the functions and the values of variables, an expression of an accepted
program denotes what it denoted before. -/
theorem denote_of_analyze {source : String} {p : Core.Program} (h : analyze source = .ok p)
    {e : Expr} (he : e ∈ p.parts) (M : Model Number Other)
    (call : FunId → List (Value Number Other) → Value Number Other)
    (ρ : VarId → Value Number Other) (htypes : M.RespectsTypes call ρ p.entities e)
    (hfolds : AgreesWithin M e) : M.denote call ρ (expr e) = M.denote call ρ e := by
  obtain ⟨hint, type, htype⟩ := wellTyped_of_mem_parts h he
  have hsound : Sound M (fun callee args (s : Unit) ↦ (call callee args, s)) ρ p.entities e :=
    { typed := htype.wellTyped_part
      fits := fun part hpart _ ↦ htypes part hpart
      agrees := hfolds
      silent := fun _ _ dropped _ ↦ .of_subsingleton M _ ρ dropped }
  rw [Model.denote, Model.denote, eval_expr e hsound]

/-- A test loses an operand, a call is absorbed and literals are folded: thirteen parts less, with
the value that the rational numbers gave before. -/
theorem denote_of_analyze_ternary :
    let f : FunId → List Rational.Value → Rational.Value := fun _ args ↦ args.headD (.number 0)
    let ρ : VarId → Rational.Value := fun id ↦ if id.index = 1 then .number 3 else .bool true
    ∃ p, analyze ("func f(n: int) -> int \x7b\n  return n\n\x7d\nint x = 3\nbool b = x > 2\n" ++
        "print(b && true ? (0 - f(x)) * 0 + (2 + 3) : 1 ^ x)") = .ok p ∧
      ∃ e ∈ p.parts, Rational.model.RespectsTypes f ρ p.entities e ∧
        AgreesWithin Rational.model e ∧ (expr e).parts.length + 13 = e.parts.length ∧
        Rational.model.denote f ρ (expr e) = Rational.model.denote f ρ e := by
  intro f ρ
  refine (exists_of_toOption (P := fun p ↦ ∃ e ∈ p.parts,
    Rational.model.RespectsTypes f ρ p.entities e ∧ AgreesWithin Rational.model e ∧
      (expr e).parts.length + 13 = e.parts.length) ?_).imp
    fun p ⟨h, e, he, htypes, hfolds, hlength⟩ ↦
      ⟨h, e, he, htypes, hfolds, hlength, denote_of_analyze h he _ f ρ htypes hfolds⟩
  decide +kernel

end Optimize
end Barista
