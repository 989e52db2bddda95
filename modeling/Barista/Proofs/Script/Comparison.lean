import Barista.Compile
import Mathlib.Tactic.Common

/-!
# Equality and inequality in a script

JavaScript compares values of one type as they are.  A loose comparison turns values of different
types into numbers first, a strict one calls them different.  The two comparisons of a program are
written with operators of different kinds, the equality with a loose one and the inequality with a
strict one, so that both of them hold of values that are equal only as numbers.
-/

namespace Barista
namespace Script

open Barista.Core (Entities)

/-! ## Values and how JavaScript compares them -/

inductive Primitive
  | number (d : Double)
  | bool (b : Bool)
  | string (s : String)
deriving DecidableEq, Repr

inductive Primitive.Tag
  | number | bool | string
deriving DecidableEq, Repr

namespace Primitive

def tag : Primitive → Tag
  | number _ => .number
  | bool _ => .bool
  | string _ => .string

/-- The number that a value is converted to, where `read` tells that of a text. -/
def toNumber (read : String → Double) : Primitive → Double
  | number d => d
  | bool b => if b then .one else .zero
  | string s => read s

def strictEq : Primitive → Primitive → Bool
  | number a, number b => a.eq b
  | bool a, bool b => a == b
  | string a, string b => a == b
  | _, _ => false

def looseEq (read : String → Double) (v w : Primitive) : Bool :=
  if v.tag = w.tag then v.strictEq w else (v.toNumber read).eq (w.toNumber read)

theorem strictEq_eq_false_of_tag_ne {v w : Primitive} (h : v.tag ≠ w.tag) :
    v.strictEq w = false := by
  cases v <;> cases w <;> first | rfl | exact (h rfl).elim

/-- Strict inequality is the negation of loose equality except for values of different types that
are equal as numbers. -/
theorem not_strictEq_eq_not_looseEq_iff (read : String → Double) (v w : Primitive) :
    (!v.strictEq w) = (!v.looseEq read w) ↔ v.tag = w.tag ∨ v.looseEq read w = false := by
  by_cases htag : v.tag = w.tag
  · simp only [looseEq, htag, if_true, true_or]
  · have hstrict := strictEq_eq_false_of_tag_ne htag
    cases hloose : v.looseEq read w <;> simp [hstrict, htag]

end Primitive

/-! ## The operators of JavaScript -/

inductive Equality
  | loose | notLoose | strict | notStrict
deriving DecidableEq, Repr

namespace Equality

def all : List Equality := [loose, notLoose, strict, notStrict]

def text : Equality → String
  | loose => "=="
  | notLoose => "!="
  | strict => "==="
  | notStrict => "!=="

def holds (read : String → Double) (v w : Primitive) : Equality → Bool
  | loose => v.looseEq read w
  | notLoose => !v.looseEq read w
  | strict => v.strictEq w
  | notStrict => !v.strictEq w

theorem mem_all (σ : Equality) : σ ∈ all := by
  cases σ <;> decide

theorem text_injective : Function.Injective text := by
  intro σ τ h
  cases σ <;> cases τ <;> first | rfl | exact absurd h (by decide)

end Equality

/-- What a text means that is a truth value or compares two operands, which are written `left` and
`right` and have the values `v` and `w`. -/
def truth? (read : String → Double) (left right : String) (v w : Primitive) (text : String) :
    Option Bool :=
  if text = "true" then some true
  else if text = "false" then some false
  else (Equality.all.find? fun σ ↦ text = inParens (left ++ " " ++ σ.text ++ " " ++ right)).map
    (Equality.holds read v w)

section Truth

variable {read : String → Double} {left right : String} {v w : Primitive}

theorem truth?_bool (b : Bool) :
    truth? read left right v w (if b then "true" else "false") = some b := by
  cases b <;> rfl

theorem inParens_ne {text word : String} (h : word.toList.head? ≠ some '(') :
    inParens text ≠ word := by
  intro heq
  apply h
  simp [← heq, inParens]

theorem truth?_compared (σ : Equality) :
    truth? read left right v w (inParens (left ++ " " ++ σ.text ++ " " ++ right)) =
      some (σ.holds read v w) := by
  have hfind : (Equality.all.find? fun τ ↦ inParens (left ++ " " ++ σ.text ++ " " ++ right) =
      inParens (left ++ " " ++ τ.text ++ " " ++ right)) = some σ := by
    have hsame {τ : Equality} (h : inParens (left ++ " " ++ σ.text ++ " " ++ right) =
        inParens (left ++ " " ++ τ.text ++ " " ++ right)) : σ = τ := by
      apply Equality.text_injective
      simpa [inParens] using h
    cases hfound : Equality.all.find? fun τ ↦ inParens (left ++ " " ++ σ.text ++ " " ++ right) =
        inParens (left ++ " " ++ τ.text ++ " " ++ right) with
    | none => simpa using List.find?_eq_none.1 hfound σ σ.mem_all
    | some τ =>
        have hτ := List.find?_some hfound
        rw [hsame (of_decide_eq_true hτ)]
  simp only [truth?, if_neg (inParens_ne (by decide : "true".toList.head? ≠ some '(')),
    if_neg (inParens_ne (by decide : "false".toList.head? ≠ some '(')), hfind, Option.map_some]

end Truth

/-! ## The comparisons of a program -/

def prepared (options : Options) (e : Core.Expr) : Core.Expr :=
  if options.optimize then Optimize.expr e else e

/-- How an expression of an analyzed program is written. -/
def written (options : Options) (names : Names) (entities : Entities) (e : Core.Expr) : String :=
  names.expr entities (prepared options e)

def literalValue? : Core.Expr → Option Primitive
  | .int n => some (.number (Double.ofInt n.toInt))
  | .double d => some (.number d)
  | .bool b => some (.bool b)
  | .string s => some (.string s)
  | _ => none

/-- The values that an expression may have: a literal has its own, and of any other expression
nothing is said. -/
def MayBe (e : Core.Expr) (v : Primitive) : Prop :=
  ∀ u, literalValue? e = some u → v = u

/-- The comparison of JavaScript that a comparison of the program stands for. -/
inductive Renders : BinaryOp → Equality → Prop
  | eq : Renders .eq .loose
  | ne : Renders .ne .notStrict

namespace Renders

variable {op : BinaryOp} {σ : Equality} {read : String → Double} {v w : Primitive}

theorem operator_eq (h : Renders op σ) : operator op = σ.text := by
  cases h <;> rfl

theorem accepted (h : Renders op σ) {env : Analysis.Env} {l r : Surface.Expr}
    {left right : Core.Expr} (hl : env.expr none l = .ok left) (hr : env.expr none r = .ok right)
    (hint : Option Ty) (span : Span) :
    env.expr hint (.binary op l r span) = .ok (.binary op left right .bool) := by
  cases h <;> simp [Analysis.Env.expr, hl, hr, bind, Except.bind, BinaryOp.isArithmetic,
    BinaryOp.isLogical, pure, Except.pure]

theorem identity_eq (h : Renders op σ) (left right : Core.Expr) (type : Ty) :
    Optimize.identity op left right type = .binary op left right type := by
  cases h <;> rfl

/-- On numbers the comparison that is made while folding is that of JavaScript. -/
theorem foldDouble?_eq (h : Renders op σ) (a b : Double) :
    Optimize.foldDouble? op a b = some (.bool (σ.holds read (.number a) (.number b))) := by
  cases h <;> rfl

theorem foldInt?_eq (h : Renders op σ) (a b : Whole) :
    Optimize.foldInt? op a b =
      Optimize.foldDouble? op (Double.ofInt a.toInt) (Double.ofInt b.toInt) := by
  cases h <;> rfl

end Renders

theorem literalValue?_of_number? {e : Core.Expr} {d : Double} (h : e.number? = some d) :
    literalValue? e = some (.number d) := by
  cases e <;> cases h <;> rfl

section Comparison

variable {op : BinaryOp} {σ : Equality} {left right : Core.Expr} {v w : Primitive}

/-- A comparison that is folded has two numbers as operands and their comparison as its result. -/
theorem Renders.folded_eq (h : Renders op σ) {folded : Core.Expr}
    (hfold : Optimize.fold? op left right = some folded) (hv : MayBe left v) (hw : MayBe right w)
    (read : String → Double) : folded = .bool (σ.holds read v w) := by
  obtain ⟨a, b, ha, hb, hab⟩ : ∃ a b, left.number? = some a ∧ right.number? = some b ∧
      Optimize.foldDouble? op a b = some folded := by
    rw [Optimize.fold?.eq_def] at hfold
    split at hfold
    · rw [h.foldInt?_eq] at hfold
      exact ⟨_, _, rfl, rfl, hfold⟩
    · simp only [Option.bind_eq_bind, Option.bind_eq_some_iff] at hfold
      obtain ⟨a, ha, b, hb, hfold⟩ := hfold
      exact ⟨a, b, ha, hb, hfold⟩
  have hleft := hv _ (literalValue?_of_number? ha)
  have hright := hw _ (literalValue?_of_number? hb)
  subst hleft hright
  rw [h.foldDouble?_eq] at hab
  exact (Option.some.inj hab).symm

/-- The text of a comparison means what its operator says of the values of the operands, also when
the comparison was folded. -/
theorem Renders.truth?_written (h : Renders op σ) (options : Options) (names : Names)
    (entities : Entities) (read : String → Double) (hv : MayBe (prepared options left) v)
    (hw : MayBe (prepared options right) w) :
    truth? read (written options names entities left) (written options names entities right) v w
        (written options names entities (.binary op left right .bool)) =
      some (σ.holds read v w) := by
  have hcompared (l r : Core.Expr) :
      truth? read (names.expr entities l) (names.expr entities r) v w
        (names.expr entities (.binary op l r .bool)) = some (σ.holds read v w) := by
    simp only [Names.expr, render, h.operator_eq]
    exact truth?_compared σ
  obtain ⟨_ | _⟩ := options
  · exact hcompared left right
  · have hprepared : prepared ⟨true⟩ (.binary op left right .bool) =
        Optimize.binary op (prepared ⟨true⟩ left) (prepared ⟨true⟩ right) .bool := by
      simp only [prepared, if_true, Optimize.expr]
    simp only [written, hprepared, Optimize.binary]
    split
    · rename_i folded hfold
      rw [h.folded_eq hfold hv hw read]
      exact truth?_bool _
    · rw [h.identity_eq]
      exact hcompared _ _

end Comparison

/-- Both comparisons of two operands are accepted when the operands are, whatever their types.  As
JavaScript the equality holds when the values are loosely equal and the inequality when they are not
strictly equal, with or without folding.  The inequality is the negation of the equality if and only
if the values have the same type or are not loosely equal. -/
theorem inequality_negates_iff {env : Analysis.Env} {l r : Surface.Expr} {left right : Core.Expr}
    (hl : env.expr none l = .ok left) (hr : env.expr none r = .ok right) (hint : Option Ty)
    (span span' : Span) (options : Options) (names : Names) (entities : Entities)
    (read : String → Double) {v w : Primitive} (hv : MayBe (prepared options left) v)
    (hw : MayBe (prepared options right) w) :
    ∃ equal unequal a b,
      env.expr hint (.binary .eq l r span) = .ok equal ∧
      env.expr hint (.binary .ne l r span') = .ok unequal ∧
      truth? read (written options names entities left) (written options names entities right) v w
        (written options names entities equal) = some a ∧
      truth? read (written options names entities left) (written options names entities right) v w
        (written options names entities unequal) = some b ∧
      a = v.looseEq read w ∧ b = (!v.strictEq w) ∧
      ((b = true ↔ a = false) ↔ v.tag = w.tag ∨ v.looseEq read w = false) := by
  refine ⟨.binary .eq left right .bool, .binary .ne left right .bool, v.looseEq read w,
    !v.strictEq w, Renders.eq.accepted hl hr hint span, Renders.ne.accepted hl hr hint span',
    Renders.eq.truth?_written options names entities read hv hw,
    Renders.ne.truth?_written options names entities read hv hw, rfl, rfl, ?_⟩
  have hnegation : ((!v.strictEq w) = true ↔ v.looseEq read w = false) ↔
      (!v.strictEq w) = (!v.looseEq read w) := by
    cases v.strictEq w <;> cases v.looseEq read w <;> decide
  exact hnegation.trans (Primitive.not_strictEq_eq_not_looseEq_iff read v w)

/-- Of a variable and a literal that are both texts just one comparison holds. -/
theorem inequality_negates_iff_texts :
    let env : Analysis.Env := ⟨⟨[⟨"x", .string, false⟩], []⟩, ⟨[("x", .variable ⟨0⟩)], []⟩⟩
    let x : Surface.Expr := .ident "x" ⟨0, 1⟩
    let a : Surface.Expr := .string "a" ⟨5, 8⟩
    ∃ equal unequal a₁ a₂,
      env.expr none (.binary .eq x a ⟨0, 8⟩) = .ok equal ∧
      env.expr none (.binary .ne x a ⟨0, 8⟩) = .ok unequal ∧
      truth? (fun _ ↦ .nan) "x" "\"a\"" (.string "b") (.string "a")
        (written .standard .empty env.entities equal) = some a₁ ∧
      truth? (fun _ ↦ .nan) "x" "\"a\"" (.string "b") (.string "a")
        (written .standard .empty env.entities unequal) = some a₂ ∧
      (a₂ = true ↔ a₁ = false) := by
  intro env x a
  have hx : env.expr none x = .ok (.var ⟨0⟩) := rfl
  have ha : env.expr none a = .ok (.string "a") := rfl
  obtain ⟨equal, unequal, a₁, a₂, hequal, hunequal, htrue, htrue', -, -, hiff⟩ :=
    inequality_negates_iff hx ha none ⟨0, 8⟩ ⟨0, 8⟩ .standard .empty env.entities
      (fun _ ↦ .nan) (v := .string "b") (w := .string "a") (fun _ h ↦ by cases h)
      (fun _ h ↦ by cases h; rfl)
  exact ⟨equal, unequal, a₁, a₂, hequal, hunequal, htrue, htrue', hiff.2 (.inl rfl)⟩

/-- One and the truth value are loosely equal and not strictly, so that both comparisons hold. -/
theorem equal_and_unequal :
    (compile .standard "print(1 == true)\nprint(1 != true)").toOption =
      some "console.log((1 == true));\nconsole.log((1 !== true));" ∧
    ∀ read : String → Double, ∃ v w, MayBe (.int .one) v ∧ MayBe (.bool true) w ∧
      truth? read "1" "true" v w "(1 == true)" = some true ∧
      truth? read "1" "true" v w "(1 !== true)" = some true := by
  refine ⟨by decide +kernel, ?_⟩
  intro read
  have hone : (Double.ofInt Whole.one.toInt).eq .one = true := by decide +kernel
  refine ⟨.number (Double.ofInt Whole.one.toInt), .bool true, fun _ h ↦ (Option.some.inj h),
    fun _ h ↦ (Option.some.inj h), ?_, ?_⟩
  · apply (truth?_compared .loose).trans
    exact congrArg some hone
  · exact truth?_compared .notStrict

end Script
end Barista
