import Barista.Proofs.Core.Part
import Barista.Proofs.Scoping.Occurrence
import Mathlib.Data.Option.NAry

/-!
# Evaluation of expressions

A model says what literals and operators mean.  Of its values only truth values and numbers are told
apart from all others, and of its numbers no more is known than the identities that zero and one
obey.  Evaluation goes from left to right and passes a state along, which nothing but a call reads
or changes: with nothing to pass along calls are functions, and with the calls made so far their
results are chosen one by one.
-/

namespace Barista
namespace Core

inductive Value (Number Other : Type)
  | bool (b : Bool)
  | number (n : Number)
  | other (o : Other)
deriving DecidableEq, Repr

variable {Number Other State : Type}

namespace Value

/-- Where a truth value or a number is expected, the value is one. -/
def fits : Value Number Other → Ty → Bool
  | bool _, .bool | number _, .int | number _, .double => true
  | _, .bool | _, .int | _, .double => false
  | _, _ => true

theorem exists_bool_of_fits {v : Value Number Other} (h : v.fits .bool = true) :
    ∃ b, v = bool b := by
  cases v with
  | bool b => exact ⟨b, rfl⟩
  | number n => cases h
  | other o => cases h

theorem exists_number_of_fits {v : Value Number Other} {type : Ty}
    (htype : type.isNumeric = true) (h : v.fits type = true) : ∃ n, v = number n := by
  cases type with
  | int | double =>
      cases v with
      | number n => exact ⟨n, rfl⟩
      | bool b => cases h
      | other o => cases h
  | _ => cases htype

end Value

open Value

/-- The meaning of literals and operators.  The laws are the identities of zero and one, and that
every literal equal to one of them stands for it. -/
structure Model (Number Other : Type) where
  zero : Number
  one : Number
  int : Whole → Number
  double : Double → Number
  string : String → Value Number Other
  unary : UnaryOp → Value Number Other → Value Number Other
  binary : BinaryOp → Value Number Other → Value Number Other → Value Number Other
  index : Value Number Other → Value Number Other → Value Number Other
  array : List (Value Number Other) → Value Number Other
  int_zero : ∀ n, (Expr.int n).isNumber .zero = true → int n = zero
  int_one : ∀ n, (Expr.int n).isNumber .one = true → int n = one
  double_zero : ∀ d, (Expr.double d).isNumber .zero = true → double d = zero
  double_one : ∀ d, (Expr.double d).isNumber .one = true → double d = one
  add_zero : ∀ x, binary .add (number x) (number zero) = number x
  zero_add : ∀ x, binary .add (number zero) (number x) = number x
  sub_zero : ∀ x, binary .sub (number x) (number zero) = number x
  zero_sub : ∀ x, binary .sub (number zero) (number x) = unary .neg (number x)
  mul_one : ∀ x, binary .mul (number x) (number one) = number x
  one_mul : ∀ x, binary .mul (number one) (number x) = number x
  mul_zero : ∀ x, binary .mul (number x) (number zero) = number zero
  zero_mul : ∀ x, binary .mul (number zero) (number x) = number zero
  div_one : ∀ x, binary .div (number x) (number one) = number x
  zero_div : ∀ x, binary .div (number zero) (number x) = number zero
  pow_zero : ∀ x, binary .pow (number x) (number zero) = number one
  one_pow : ∀ x, binary .pow (number one) (number x) = number one

namespace Model

/-- The value of a literal. -/
def literal? (M : Model Number Other) : Expr → Option (Value Number Other)
  | .int n => some (.number (M.int n))
  | .double d => some (.number (M.double d))
  | .bool b => some (.bool b)
  | .string s => some (M.string s)
  | _ => none

section Literals

variable (M : Model Number Other) {e : Expr}

theorem literal?_of_isNumber_zero (h : e.isNumber .zero = true) :
    M.literal? e = some (.number M.zero) := by
  cases e with
  | int n => rw [literal?, M.int_zero n h]
  | double d => rw [literal?, M.double_zero d h]
  | _ => cases h

theorem literal?_of_isNumber_one (h : e.isNumber .one = true) :
    M.literal? e = some (.number M.one) := by
  cases e with
  | int n => rw [literal?, M.int_one n h]
  | double d => rw [literal?, M.double_one d h]
  | _ => cases h

theorem literal?_of_bool? {b : Bool} (h : e.bool? = some b) :
    M.literal? e = some (.bool b) := by
  cases e <;> cases h
  rfl

end Literals

/-- An operator behind its left operand.  The right operand of a logical one is passed over when the
left operand settles the result. -/
def operate (M : Model Number Other) (op : BinaryOp) (left : Value Number Other × State)
    (right : State → Value Number Other × State) : Value Number Other × State :=
  match op, left with
  | .and, (.bool true, s) | .or, (.bool false, s) => right s
  | .and, (a, s) | .or, (a, s) => (a, s)
  | op, (a, s) => (M.binary op a (right s).1, (right s).2)

/-- Only the branch that the test selects is evaluated. -/
def choose (test : Value Number Other × State) (yes no : State → Value Number Other × State) :
    Value Number Other × State :=
  match test with
  | (.bool true, s) => yes s
  | (_, s) => no s

theorem operate_of_strict (M : Model Number Other) {op : BinaryOp} (h : op.isLogical = false)
    (left : Value Number Other × State) (right : State → Value Number Other × State) :
    M.operate op left right = (M.binary op left.1 (right left.2).1, (right left.2).2) := by
  cases op with
  | and | or => cases h
  | _ => rfl

theorem operate_and (M : Model Number Other) {left : Value Number Other × State} {b : Bool}
    (h : left.1 = .bool b) (right : State → Value Number Other × State) :
    M.operate .and left right = if b then right left.2 else left := by
  obtain ⟨v, s⟩ := left
  cases h
  cases b <;> rfl

theorem operate_or (M : Model Number Other) {left : Value Number Other × State} {b : Bool}
    (h : left.1 = .bool b) (right : State → Value Number Other × State) :
    M.operate .or left right = if b then left else right left.2 := by
  obtain ⟨v, s⟩ := left
  cases h
  cases b <;> rfl

end Model

/-- What a call returns, and the state behind it. -/
abbrev Callee (Number Other State : Type) :=
  FunId → List (Value Number Other) → State → Value Number Other × State

namespace Model

section Evaluation

variable (M : Model Number Other) (call : Callee Number Other State)
  (ρ : VarId → Value Number Other)

mutual

def eval : Expr → State → Value Number Other × State
  | .int n, s => (.number (M.int n), s)
  | .double d, s => (.number (M.double d), s)
  | .bool b, s => (.bool b, s)
  | .string text, s => (M.string text, s)
  | .var id, s => (ρ id, s)
  | .binary op l r _, s => M.operate op (eval l s) (eval r)
  | .unary op e _, s => (M.unary op (eval e s).1, (eval e s).2)
  | .ternary c y n _, s => choose (eval c s) (eval y) (eval n)
  | .call callee args _, s => call callee (evalAll args s).1 (evalAll args s).2
  | .index a i _, s =>
    let array := eval a s
    let position := eval i array.2
    (M.index array.1 position.1, position.2)
  | .array items _, s => (M.array (evalAll items s).1, (evalAll items s).2)

def evalAll : List Expr → State → List (Value Number Other) × State
  | [], s => ([], s)
  | e :: es, s =>
    let first := eval e s
    let others := evalAll es first.2
    (first.1 :: others.1, others.2)

end

variable {M call ρ}

theorem eval_of_literal? {e : Expr} {v : Value Number Other} (h : M.literal? e = some v)
    (s : State) : M.eval call ρ e s = (v, s) := by
  cases e <;> cases h <;> rfl

/-! ## Silence -/

variable (M call ρ) in
/-- Evaluation leaves every state as it is. -/
def Silent (e : Expr) : Prop :=
  ∀ s, (M.eval call ρ e s).2 = s

variable (M call ρ) in
theorem Silent.of_subsingleton [Subsingleton State] (e : Expr) : M.Silent call ρ e :=
  fun _ ↦ Subsingleton.elim _ _

theorem operate_snd {op : BinaryOp} {left : Value Number Other × State}
    {right : State → Value Number Other × State} (h : ∀ s, (right s).2 = s) :
    (M.operate op left right).2 = left.2 := by
  simp only [operate.eq_def]
  split <;> simp [h]

theorem choose_snd {test : Value Number Other × State}
    {yes no : State → Value Number Other × State} (hyes : ∀ s, (yes s).2 = s)
    (hno : ∀ s, (no s).2 = s) : (choose test yes no).2 = test.2 := by
  simp only [choose.eq_def]
  split <;> simp [hyes, hno]

end Evaluation

end Model

/-- No function is called in the expression. -/
def Expr.CallFree (e : Expr) : Prop :=
  ∀ callee, Entity.function callee ∉ e.refs

namespace Model

variable {M : Model Number Other} {call : Callee Number Other State}
  {ρ : VarId → Value Number Other}

mutual

theorem silent_of_callFree : ∀ e : Expr, e.CallFree → M.Silent call ρ e
  | .int _, _ | .double _, _ | .bool _, _ | .string _, _ | .var _, _ => fun _ ↦ rfl
  | .binary op l r type, h => by
      have hl := silent_of_callFree l fun f hf ↦ h f (List.mem_append_left _ hf)
      have hr := silent_of_callFree r fun f hf ↦ h f (List.mem_append_right _ hf)
      intro s
      rw [eval, operate_snd hr]
      exact hl s
  | .unary op e type, h => by
      have he := silent_of_callFree e h
      intro s
      rw [eval]
      exact he s
  | .ternary c y n type, h => by
      have hc := silent_of_callFree c fun f hf ↦
        h f (List.mem_append_left _ (List.mem_append_left _ hf))
      have hy := silent_of_callFree y fun f hf ↦
        h f (List.mem_append_left _ (List.mem_append_right _ hf))
      have hn := silent_of_callFree n fun f hf ↦ h f (List.mem_append_right _ hf)
      intro s
      rw [eval, choose_snd hy hn]
      exact hc s
  | .call callee args type, h => (h callee List.mem_cons_self).elim
  | .index a i type, h => by
      have ha := silent_of_callFree a fun f hf ↦ h f (List.mem_append_left _ hf)
      have hi := silent_of_callFree i fun f hf ↦ h f (List.mem_append_right _ hf)
      intro s
      rw [eval]
      exact (hi _).trans (ha s)
  | .array items type, h => by
      have hitems := silent_of_allCallFree items h
      intro s
      rw [eval]
      exact hitems s

theorem silent_of_allCallFree : ∀ es : List Expr,
    (∀ callee, Entity.function callee ∉ Expr.allRefs es) →
      ∀ s, (M.evalAll call ρ es s).2 = s
  | [], _ => fun _ ↦ rfl
  | e :: es, h => by
      have he := silent_of_callFree e fun f hf ↦ h f (List.mem_append_left _ hf)
      have hes := silent_of_allCallFree es fun f hf ↦ h f (List.mem_append_right _ hf)
      intro s
      rw [evalAll]
      exact (hes _).trans (he s)

end

end Model
end Core
end Barista
