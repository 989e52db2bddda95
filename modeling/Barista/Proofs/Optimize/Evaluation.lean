import Barista.Optimize.Statement
import Barista.Proofs.Core.Evaluation

/-!
# Optimization keeps the value of an expression

An identity keeps the value in every model, because the operands of a typed operator are numbers or
truth values; a fold keeps it where the model agrees with the fold.  An operand that is left out
takes its calls with it, which no value shows when calls are functions of their arguments.
-/

namespace Barista
namespace Optimize

open Barista.Core (Expr VarId FunId Entities Value Model Callee HasType)
open Barista.Core.Model (eval evalAll operate choose operate_of_strict eval_of_literal?)

variable {Number Other State : Type}

/-! ## Folds -/

/-- Where the operator is folded between these operands, the literal stands for its result. -/
def AgreesBinary (M : Model Number Other) (op : BinaryOp) (left right : Expr) : Prop :=
  ∀ folded ∈ fold? op left right,
    M.literal? folded = Option.map₂ (M.binary op) (M.literal? left) (M.literal? right)

def AgreesUnary (M : Model Number Other) (op : UnaryOp) (operand : Expr) : Prop :=
  ∀ folded ∈ foldUnary? op operand, M.literal? folded = (M.literal? operand).map (M.unary op)

/-- The model agrees with what is folded at the root of the expression. -/
def AgreesAt (M : Model Number Other) : Expr → Prop
  | .binary op l r _ => AgreesBinary M op (expr l) (expr r)
  | .unary op e _ => AgreesUnary M op (expr e)
  | _ => True

theorem foldDouble?_of_isLogical {op : BinaryOp} (h : op.isLogical = true) (a b : Double) :
    foldDouble? op a b = none := by
  cases op with
  | and | or => rfl
  | _ => cases h

theorem foldInt?_of_isLogical {op : BinaryOp} (h : op.isLogical = true) (a b : Whole) :
    foldInt? op a b = none := by
  cases op with
  | and | or => rfl
  | _ => cases h

/-- Logical operators are not folded. -/
theorem isLogical_of_fold? {op : BinaryOp} {left right folded : Expr}
    (h : fold? op left right = some folded) : op.isLogical = false := by
  cases hop : op.isLogical with
  | false => rfl
  | true =>
      rw [fold?.eq_def] at h
      split at h
      · rw [foldInt?_of_isLogical hop] at h
        cases h
      · simp [foldDouble?_of_isLogical hop] at h

theorem exists_literal?_of_number? (M : Model Number Other) {e : Expr} {d : Double}
    (h : e.number? = some d) : ∃ n, M.literal? e = some (.number n) := by
  cases e with
  | int n => exact ⟨M.int n, rfl⟩
  | double d => exact ⟨M.double d, rfl⟩
  | _ => cases h

/-- Only literals are folded. -/
theorem exists_literal?_of_fold? (M : Model Number Other) {op : BinaryOp} {left right folded : Expr}
    (h : fold? op left right = some folded) :
    (∃ a, M.literal? left = some a) ∧ ∃ b, M.literal? right = some b := by
  rw [fold?.eq_def] at h
  split at h
  · exact ⟨⟨_, rfl⟩, _, rfl⟩
  · simp only [Option.bind_eq_bind, Option.bind_eq_some_iff] at h
    obtain ⟨a, hleft, b, hright, -⟩ := h
    obtain ⟨m, hm⟩ := exists_literal?_of_number? M hleft
    obtain ⟨n, hn⟩ := exists_literal?_of_number? M hright
    exact ⟨⟨_, hm⟩, _, hn⟩

theorem exists_literal?_of_foldUnary? (M : Model Number Other) {op : UnaryOp}
    {operand folded : Expr} (h : foldUnary? op operand = some folded) :
    ∃ a, M.literal? operand = some a := by
  rw [foldUnary?.eq_def] at h
  split at h
  · exact ⟨_, rfl⟩
  · exact ⟨_, rfl⟩
  · cases h

section Evaluation

variable {M : Model Number Other} {call : Callee Number Other State}
  {ρ : VarId → Value Number Other}

theorem eval_of_fold? {op : BinaryOp} {left right folded : Expr} (type : Ty)
    (h : fold? op left right = some folded) (hagrees : AgreesBinary M op left right) :
    M.eval call ρ folded = M.eval call ρ (.binary op left right type) := by
  obtain ⟨⟨a, ha⟩, b, hb⟩ := exists_literal?_of_fold? M h
  have hfolded := hagrees folded h
  rw [ha, hb, Option.map₂_some_some] at hfolded
  funext s
  rw [eval_of_literal? hfolded, eval, operate_of_strict M (isLogical_of_fold? h),
    eval_of_literal? ha, eval_of_literal? hb]

theorem eval_of_foldUnary? {op : UnaryOp} {operand folded : Expr} (type : Ty)
    (h : foldUnary? op operand = some folded) (hagrees : AgreesUnary M op operand) :
    M.eval call ρ folded = M.eval call ρ (.unary op operand type) := by
  obtain ⟨a, ha⟩ := exists_literal?_of_foldUnary? M h
  have hfolded := hagrees folded h
  rw [ha, Option.map_some] at hfolded
  funext s
  rw [eval_of_literal? hfolded, eval, eval_of_literal? ha]

/-! ## Identities -/

variable (M call ρ) in
/-- Whatever the state, the value of the expression is a number. -/
def Numeric (e : Expr) : Prop :=
  ∀ s, ∃ n, (M.eval call ρ e s).1 = .number n

variable (M call ρ) in
def Boolean (e : Expr) : Prop :=
  ∀ s, ∃ b, (M.eval call ρ e s).1 = .bool b

section Operands

variable {op : BinaryOp} {left right kept : Expr} {type : Ty} {k v : Value Number Other}

/-- A neutral literal on the right may be left out. -/
theorem eval_keepLeft (hop : op.isLogical = false) (hright : M.literal? right = some k)
    (hleft : Numeric M call ρ left) (h : ∀ n, M.binary op (.number n) k = .number n) :
    M.eval call ρ left = M.eval call ρ (.binary op left right type) := by
  funext s
  obtain ⟨n, hn⟩ := hleft s
  rw [eval, operate_of_strict M hop, eval_of_literal? hright, hn, h, ← hn]

theorem eval_keepRight (hop : op.isLogical = false) (hleft : M.literal? left = some k)
    (hright : Numeric M call ρ right) (h : ∀ n, M.binary op k (.number n) = .number n) :
    M.eval call ρ right = M.eval call ρ (.binary op left right type) := by
  funext s
  obtain ⟨n, hn⟩ := hright s
  rw [eval, operate_of_strict M hop, eval_of_literal? hleft, hn, h, ← hn]

/-- A literal takes the place of an operation that it settles, unless that makes a call. -/
theorem eval_absorbLeft (hop : op.isLogical = false) (hright : M.literal? right = some k)
    (hkept : M.literal? kept = some v) (hleft : Numeric M call ρ left)
    (hsilent : M.Silent call ρ left) (h : ∀ n, M.binary op (.number n) k = v) :
    M.eval call ρ kept = M.eval call ρ (.binary op left right type) := by
  funext s
  obtain ⟨n, hn⟩ := hleft s
  rw [eval, operate_of_strict M hop, eval_of_literal? hright, eval_of_literal? hkept, hn, h,
    hsilent s]

theorem eval_absorbRight (hop : op.isLogical = false) (hleft : M.literal? left = some k)
    (hkept : M.literal? kept = some v) (hright : Numeric M call ρ right)
    (hsilent : M.Silent call ρ right) (h : ∀ n, M.binary op k (.number n) = v) :
    M.eval call ρ kept = M.eval call ρ (.binary op left right type) := by
  funext s
  obtain ⟨n, hn⟩ := hright s
  rw [eval, operate_of_strict M hop, eval_of_literal? hleft, eval_of_literal? hkept, hn, h,
    hsilent s]

end Operands

/-- The operand that an absorbing identity leaves out; of two literals either may be named. -/
def absorbed (op : BinaryOp) (left right : Expr) : List Expr :=
  match op with
  | .mul =>
    if right.isNumber .zero then [left]
    else if left.isNumber .zero then [right]
    else []
  | .div => if left.isNumber .zero then [right] else []
  | .pow =>
    if right.isNumber .zero then [left]
    else if left.isNumber .one then [right]
    else []
  | _ => []

theorem int_one_isNumber : (Expr.int .one).isNumber .one = true := by
  decide +kernel

section Identity

variable {left right : Expr} (type : Ty)

theorem eval_identity_add (hleft : Numeric M call ρ left) (hright : Numeric M call ρ right) :
    M.eval call ρ (identity .add left right type) =
      M.eval call ρ (.binary .add left right type) := by
  simp only [identity]
  split_ifs with hr hl
  · exact eval_keepLeft rfl (M.literal?_of_isNumber_zero hr) hleft M.add_zero
  · exact eval_keepRight rfl (M.literal?_of_isNumber_zero hl) hright M.zero_add
  · rfl

theorem eval_identity_sub (hleft : Numeric M call ρ left) (hright : Numeric M call ρ right) :
    M.eval call ρ (identity .sub left right type) =
      M.eval call ρ (.binary .sub left right type) := by
  simp only [identity]
  split_ifs with hr hl
  · exact eval_keepLeft rfl (M.literal?_of_isNumber_zero hr) hleft M.sub_zero
  · funext s
    obtain ⟨n, hn⟩ := hright s
    rw [eval, eval, operate_of_strict M rfl, eval_of_literal? (M.literal?_of_isNumber_zero hl), hn,
      M.zero_sub]
  · rfl

theorem eval_identity_mul (hleft : Numeric M call ρ left) (hright : Numeric M call ρ right)
    (hsilent : ∀ e ∈ absorbed .mul left right, M.Silent call ρ e) :
    M.eval call ρ (identity .mul left right type) =
      M.eval call ρ (.binary .mul left right type) := by
  simp only [identity]
  split_ifs with hr hl hr' hl'
  · exact eval_keepLeft rfl (M.literal?_of_isNumber_one hr) hleft M.mul_one
  · exact eval_keepRight rfl (M.literal?_of_isNumber_one hl) hright M.one_mul
  · have hzero := M.literal?_of_isNumber_zero hr'
    have hquiet := hsilent left (by simp [absorbed, hr'])
    exact eval_absorbLeft rfl hzero hzero hleft hquiet M.mul_zero
  · have hzero := M.literal?_of_isNumber_zero hl'
    have hquiet := hsilent right (by simp [absorbed, hr', hl'])
    exact eval_absorbRight rfl hzero hzero hright hquiet M.zero_mul
  · rfl

theorem eval_identity_div (hleft : Numeric M call ρ left) (hright : Numeric M call ρ right)
    (hsilent : ∀ e ∈ absorbed .div left right, M.Silent call ρ e) :
    M.eval call ρ (identity .div left right type) =
      M.eval call ρ (.binary .div left right type) := by
  simp only [identity]
  split_ifs with hr hl
  · exact eval_keepLeft rfl (M.literal?_of_isNumber_one hr) hleft M.div_one
  · obtain ⟨hl, -⟩ := Bool.and_eq_true_iff.1 hl
    have hzero := M.literal?_of_isNumber_zero hl
    have hquiet := hsilent right (by simp [absorbed, hl])
    exact eval_absorbRight rfl hzero hzero hright hquiet M.zero_div
  · rfl

theorem eval_identity_pow (hleft : Numeric M call ρ left) (hright : Numeric M call ρ right)
    (hsilent : ∀ e ∈ absorbed .pow left right, M.Silent call ρ e) :
    M.eval call ρ (identity .pow left right type) =
      M.eval call ρ (.binary .pow left right type) := by
  have hone := M.literal?_of_isNumber_one int_one_isNumber
  simp only [identity]
  split_ifs with hr hl
  · have hquiet := hsilent left (by simp [absorbed, hr])
    exact eval_absorbLeft rfl (M.literal?_of_isNumber_zero hr) hone hleft hquiet M.pow_zero
  · have hquiet := hsilent right (by simp [absorbed, hr, hl])
    exact eval_absorbRight rfl (M.literal?_of_isNumber_one hl) hone hright hquiet M.one_pow
  · rfl

theorem eval_identity_and (hleft : Boolean M call ρ left) :
    M.eval call ρ (identity .and left right type) =
      M.eval call ρ (.binary .and left right type) := by
  simp only [identity]
  split_ifs with hl hr
  · funext s
    rw [eval, eval_of_literal? (M.literal?_of_bool? hl)]
    rfl
  · funext s
    obtain ⟨b, hb⟩ := hleft s
    rw [eval, M.operate_and hb, eval_of_literal? (M.literal?_of_bool? hr)]
    cases b with
    | true => exact Prod.ext hb rfl
    | false => rfl
  · rfl

theorem eval_identity_or (hleft : Boolean M call ρ left) :
    M.eval call ρ (identity .or left right type) =
      M.eval call ρ (.binary .or left right type) := by
  simp only [identity]
  split_ifs with hl hr
  · funext s
    rw [eval, eval_of_literal? (M.literal?_of_bool? hl)]
    rfl
  · funext s
    obtain ⟨b, hb⟩ := hleft s
    rw [eval, M.operate_or hb, eval_of_literal? (M.literal?_of_bool? hr)]
    cases b with
    | true => rfl
    | false => exact Prod.ext hb rfl
  · rfl

end Identity

/-- An identity keeps the value where the operands have the values that their operator expects. -/
theorem eval_identity {op : BinaryOp} {left right : Expr} (type : Ty)
    (hnumeric : op.isArithmetic = true → Numeric M call ρ left ∧ Numeric M call ρ right)
    (hboolean : op.isLogical = true → Boolean M call ρ left)
    (hsilent : ∀ e ∈ absorbed op left right, M.Silent call ρ e) :
    M.eval call ρ (identity op left right type) =
      M.eval call ρ (.binary op left right type) := by
  cases op with
  | add => exact eval_identity_add type (hnumeric rfl).1 (hnumeric rfl).2
  | sub => exact eval_identity_sub type (hnumeric rfl).1 (hnumeric rfl).2
  | mul => exact eval_identity_mul type (hnumeric rfl).1 (hnumeric rfl).2 hsilent
  | div => exact eval_identity_div type (hnumeric rfl).1 (hnumeric rfl).2 hsilent
  | pow => exact eval_identity_pow type (hnumeric rfl).1 (hnumeric rfl).2 hsilent
  | and => exact eval_identity_and type (hboolean rfl)
  | or => exact eval_identity_or type (hboolean rfl)
  | lt | le | eq | ne | ge | gt => rfl

theorem eval_binary {op : BinaryOp} {left right : Expr} (type : Ty)
    (hnumeric : op.isArithmetic = true → Numeric M call ρ left ∧ Numeric M call ρ right)
    (hboolean : op.isLogical = true → Boolean M call ρ left)
    (hagrees : AgreesBinary M op left right)
    (hsilent : ∀ e ∈ absorbed op left right, M.Silent call ρ e) :
    M.eval call ρ (binary op left right type) = M.eval call ρ (.binary op left right type) := by
  rw [binary]
  split
  · rename_i folded hfold
    exact eval_of_fold? type hfold hagrees
  · exact eval_identity type hnumeric hboolean hsilent

theorem eval_unary {op : UnaryOp} {operand : Expr} (type : Ty)
    (hagrees : AgreesUnary M op operand) :
    M.eval call ρ (unary op operand type) = M.eval call ρ (.unary op operand type) := by
  rw [unary]
  split
  · rename_i folded hfold
    exact eval_of_foldUnary? type hfold hagrees
  · rfl

theorem eval_ternary (test yes no : Expr) (type : Ty) :
    M.eval call ρ (ternary test yes no type) = M.eval call ρ (.ternary test yes no type) := by
  funext s
  rw [ternary.eq_def]
  split <;> simp only [eval, choose]

/-! ## Whole expressions -/

/-- The operands that identities leave out at the root of the expression. -/
def droppedAt : Expr → List Expr
  | .binary op l r _ => absorbed op (expr l) (expr r)
  | _ => []

variable (M call ρ) in
/-- What optimization relies on in an expression: it is typed, values are of the kind that types
promise, folds agree with the model, and operands that are left out make no call. -/
structure Sound (entities : Entities) (e : Expr) : Prop where
  typed : ∀ part ∈ e.parts, part.WellTyped entities
  fits : ∀ part ∈ e.parts, ∀ s, (M.eval call ρ part s).1.fits (part.type entities) = true
  agrees : ∀ part ∈ e.parts, AgreesAt M part
  silent : ∀ part ∈ e.parts, ∀ dropped ∈ droppedAt part, M.Silent call ρ dropped

namespace Sound

variable {entities : Entities} {e part : Expr}

theorem of_subset (h : Sound M call ρ entities e) (hsub : part.parts ⊆ e.parts) :
    Sound M call ρ entities part :=
  ⟨fun x hx ↦ h.typed x (hsub hx), fun x hx ↦ h.fits x (hsub hx),
    fun x hx ↦ h.agrees x (hsub hx), fun x hx ↦ h.silent x (hsub hx)⟩

theorem of_mem {es : List Expr} (h : Sound M call ρ entities e) (he : part ∈ es)
    (hsub : Expr.allParts es ⊆ e.parts) : Sound M call ρ entities part :=
  h.of_subset fun _ hx ↦ hsub (Expr.mem_allParts_iff.2 ⟨part, he, hx⟩)

theorem numeric (h : Sound M call ρ entities e) {hint : Option Ty} {type : Ty}
    (htype : HasType entities hint e type) (hnumeric : type.isNumeric = true) :
    Numeric M call ρ e := by
  intro s
  have hfits := h.fits e e.mem_parts_self s
  rw [htype.type_eq] at hfits
  exact Value.exists_number_of_fits hnumeric hfits

theorem boolean (h : Sound M call ρ entities e) {hint : Option Ty}
    (htype : HasType entities hint e .bool) : Boolean M call ρ e := by
  intro s
  have hfits := h.fits e e.mem_parts_self s
  rw [htype.type_eq] at hfits
  exact Value.exists_bool_of_fits hfits

end Sound

variable {entities : Entities}

/-- The kinds of operators exclude each other, so the operator settles which rule was used. -/
theorem operands_of_arithmetic {op : BinaryOp} {l r : Expr} {type t : Ty} {hint : Option Ty}
    (h : HasType entities hint (.binary op l r type) t) (hop : op.isArithmetic = true) :
    ∃ a b, HasType entities none l a ∧ HasType entities none r b ∧ a.isNumeric = true ∧
      b.isNumeric = true := by
  cases h with
  | arithmetic _ hl hr ha hb => exact ⟨_, _, hl, hr, ha, hb⟩
  | logical hlogical => cases op <;> simp_all [BinaryOp.isArithmetic, BinaryOp.isLogical]
  | comparison hrelational =>
      cases op <;> simp_all [BinaryOp.isArithmetic, BinaryOp.isRelational]

theorem operand_of_logical {op : BinaryOp} {l r : Expr} {type t : Ty} {hint : Option Ty}
    (h : HasType entities hint (.binary op l r type) t) (hop : op.isLogical = true) :
    HasType entities none l .bool := by
  cases h with
  | logical _ hl => exact hl
  | arithmetic harithmetic => cases op <;> simp_all [BinaryOp.isArithmetic, BinaryOp.isLogical]
  | comparison hrelational => cases op <;> simp_all [BinaryOp.isLogical, BinaryOp.isRelational]

theorem eval_expr_binary {op : BinaryOp} {l r : Expr} {type : Ty}
    (h : Sound M call ρ entities (.binary op l r type))
    (hleft : Sound M call ρ entities l) (hright : Sound M call ρ entities r)
    (hl : M.eval call ρ (expr l) = M.eval call ρ l)
    (hr : M.eval call ρ (expr r) = M.eval call ρ r) :
    M.eval call ρ (expr (.binary op l r type)) = M.eval call ρ (.binary op l r type) := by
  have hself := (Expr.binary op l r type).mem_parts_self
  obtain ⟨hint, t, htype⟩ := h.typed _ hself
  have hoperands : M.eval call ρ (.binary op (expr l) (expr r) type) =
      M.eval call ρ (.binary op l r type) := by
    funext s
    rw [eval, eval, hl, hr]
  -- The rules see the optimized operands; those have the values whose kinds the types promise.
  rw [expr, eval_binary type ?_ ?_ (h.agrees _ hself) (h.silent _ hself), hoperands]
  · intro hop
    obtain ⟨a, b, ha, hb, hna, hnb⟩ := operands_of_arithmetic htype hop
    exact ⟨fun s ↦ hl ▸ hleft.numeric ha hna s, fun s ↦ hr ▸ hright.numeric hb hnb s⟩
  · intro hop s
    exact hl ▸ hleft.boolean (operand_of_logical htype hop) s

mutual

/-- Optimization keeps the value of an expression and the state behind it. -/
theorem eval_expr : ∀ e : Expr, Sound M call ρ entities e →
    M.eval call ρ (expr e) = M.eval call ρ e
  | .int _, _ | .double _, _ | .bool _, _ | .string _, _ | .var _, _ => by rw [expr]
  | .binary op l r type, h => by
      have hleft : Sound M call ρ entities l := h.of_subset (by simp [Expr.parts])
      have hright : Sound M call ρ entities r := h.of_subset (by simp [Expr.parts])
      exact eval_expr_binary h hleft hright (eval_expr l hleft) (eval_expr r hright)
  | .unary op e type, h => by
      have he := eval_expr e (h.of_subset (by simp [Expr.parts]))
      have hagrees : AgreesUnary M op (expr e) := h.agrees _ (Expr.mem_parts_self _)
      rw [expr, eval_unary type hagrees]
      funext s
      rw [eval, eval, he]
  | .ternary c y n type, h => by
      have hc := eval_expr c (h.of_subset fun x hx ↦ by simp [Expr.parts, hx])
      have hy := eval_expr y (h.of_subset fun x hx ↦ by simp [Expr.parts, hx])
      have hn := eval_expr n (h.of_subset fun x hx ↦ by simp [Expr.parts, hx])
      rw [expr, eval_ternary]
      funext s
      rw [eval, eval, hc, hy, hn]
  | .call callee args type, h => by
      have hargs := evalAll_exprs args fun e he ↦ h.of_mem he (by simp [Expr.parts])
      rw [expr]
      funext s
      rw [eval, eval, hargs]
  | .index a i type, h => by
      have ha := eval_expr a (h.of_subset (by simp [Expr.parts]))
      have hi := eval_expr i (h.of_subset (by simp [Expr.parts]))
      rw [expr]
      funext s
      rw [eval, eval, ha, hi]
  | .array items type, h => by
      have hitems := evalAll_exprs items fun e he ↦ h.of_mem he (by simp [Expr.parts])
      rw [expr]
      funext s
      rw [eval, eval, hitems]

theorem evalAll_exprs : ∀ es : List Expr, (∀ e ∈ es, Sound M call ρ entities e) →
    M.evalAll call ρ (exprs es) = M.evalAll call ρ es
  | [], _ => by rw [exprs]
  | e :: es, h => by
      have hhead := eval_expr e (h e List.mem_cons_self)
      have htail := evalAll_exprs es fun x hx ↦ h x (List.mem_cons_of_mem _ hx)
      rw [exprs]
      funext s
      rw [evalAll, evalAll, hhead, htail]

end

end Evaluation

end Optimize
end Barista
