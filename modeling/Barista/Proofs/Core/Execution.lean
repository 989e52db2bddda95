import Barista.Proofs.Core.Part
import Mathlib.Logic.Function.Basic

/-!
# Execution of statements

A statement relates the state in which it starts to the ways in which it may end: with a value that
is returned or without one, and in some state.  The relation is put together from those of its
parts.  How expressions are evaluated is left open; that may change the state, print, call functions
or have no outcome at all.
-/

namespace Barista
namespace Core

variable {Value : Type}

/-- The values of all variables, and what was printed so far. -/
structure State (Value : Type) where
  store : VarId → Value
  output : List Value

namespace State

def set (s : State Value) (id : VarId) (v : Value) : State Value :=
  { s with store := Function.update s.store id v }

def print (s : State Value) (v : Value) : State Value :=
  { s with output := s.output ++ [v] }

theorem set_store_self (s : State Value) (id : VarId) : s.set id (s.store id) = s := by
  rw [set, Function.update_eq_self]

end State

inductive Outcome (Value : Type)
  | normal
  | returned (value : Option Value)

/-- The values that may come of a start, each with the state behind it. -/
abbrev Evaluation (Value : Type) := State Value → Value → State Value → Prop

/-- An evaluator of expressions: of its outcomes no more is known than those of truth literals, of
empty arrays and of variables.  A `for` loop goes through the items of a value, and an assignment
with an operator combines two values; both may be impossible. -/
structure Machine (Value : Type) where
  eval : Expr → Evaluation Value
  bool : Bool → Value
  emptyArray : Value
  items? : Value → Option (List Value)
  combine? : AssignOp → Value → Value → Option Value
  bool_ne : bool true ≠ bool false
  items?_emptyArray : items? emptyArray = some []
  eval_bool : ∀ b s v t, eval (.bool b) s v t ↔ v = bool b ∧ t = s
  eval_emptyArray : ∀ type s v t, eval (.array [] type) s v t ↔ v = emptyArray ∧ t = s
  eval_var : ∀ id s v t, eval (.var id) s v t ↔ v = s.store id ∧ t = s

/-- What may come of a start: an outcome and the state behind it. -/
abbrev Effect (Value : Type) := State Value → Outcome Value → State Value → Prop

namespace Effect

def skip : Effect Value :=
  fun s o t ↦ o = .normal ∧ t = s

/-- The second follows unless the first returned. -/
def andThen (first second : Effect Value) : Effect Value :=
  fun s o u ↦ (∃ t, first s .normal t ∧ second t o u) ∨ ∃ v, o = .returned v ∧ first s o u

@[simp] theorem skip_andThen (effect : Effect Value) : skip.andThen effect = effect := by
  funext s o u
  apply propext
  constructor
  · rintro (⟨t, ⟨-, rfl⟩, h⟩ | ⟨v, rfl, h, -⟩)
    · exact h
    · cases h
  · intro h
    exact .inl ⟨s, ⟨rfl, rfl⟩, h⟩

@[simp] theorem andThen_skip (effect : Effect Value) : effect.andThen skip = effect := by
  funext s o u
  apply propext
  constructor
  · rintro (⟨t, h, rfl, rfl⟩ | ⟨v, rfl, h⟩) <;> exact h
  · intro h
    cases o with
    | normal => exact .inl ⟨u, h, rfl, rfl⟩
    | returned v => exact .inr ⟨v, rfl, h⟩

theorem andThen_assoc (first second third : Effect Value) :
    (first.andThen second).andThen third = first.andThen (second.andThen third) := by
  funext s o u
  apply propext
  constructor
  · rintro (⟨t, ⟨r, hfirst, hsecond⟩ | ⟨v, hv, -⟩, hthird⟩ | ⟨v, rfl, ⟨r, hfirst, hsecond⟩ | h⟩)
    · exact .inl ⟨r, hfirst, .inl ⟨t, hsecond, hthird⟩⟩
    · cases hv
    · exact .inl ⟨r, hfirst, .inr ⟨v, rfl, hsecond⟩⟩
    · exact .inr h
  · rintro (⟨r, hfirst, ⟨t, hsecond, hthird⟩ | ⟨v, rfl, hsecond⟩⟩ | ⟨v, rfl, hfirst⟩)
    · exact .inl ⟨t, .inl ⟨r, hfirst, hsecond⟩, hthird⟩
    · exact .inr ⟨v, rfl, .inl ⟨r, hfirst, hsecond⟩⟩
    · exact .inr ⟨v, rfl, .inr ⟨v, rfl, hfirst⟩⟩

/-- The body for each of the items in turn, which the variable holds. -/
def each (id : VarId) (body : Effect Value) : List Value → Effect Value
  | [] => skip
  | item :: items => fun s ↦ (body.andThen (each id body items)) (s.set id item)

end Effect

namespace Machine

variable (M : Machine Value)

/-- One branch or the other, behind a test. -/
def choose (test : Evaluation Value) (yes no : Effect Value) : Effect Value :=
  fun s o u ↦ ∃ t, (test s (M.bool true) t ∧ yes t o u) ∨ (test s (M.bool false) t ∧ no t o u)

/-- Rounds of the body, as long as the test holds and nothing is returned. -/
inductive Loop (test : Evaluation Value) (body : Effect Value) : Effect Value
  | done {s t} (htest : test s (M.bool false) t) : Loop test body s .normal t
  | next {s t u w o} (htest : test s (M.bool true) t) (hbody : body t .normal u)
      (hrest : Loop test body u o w) : Loop test body s o w
  | exit {s t u v} (htest : test s (M.bool true) t) (hbody : body t (.returned v) u) :
      Loop test body s (.returned v) u

/-- The value that an assignment gives to a variable which held `old`. -/
def assigned? (op : AssignOp) (old v : Value) : Option Value :=
  match op with
  | .set => some v
  | op => M.combine? op old v

mutual

def exec : Stmt → Effect Value
  | .declare id init => fun s o u ↦ ∃ v t, M.eval init s v t ∧ o = .normal ∧ u = t.set id v
  -- The old value is the one before the operand is evaluated, which may change the variable.
  | .assign id op value => fun s o u ↦ ∃ v t w, M.eval value s v t ∧
      M.assigned? op (s.store id) v = some w ∧ o = .normal ∧ u = t.set id w
  | .print argument => fun s o u ↦ ∃ v t, M.eval argument s v t ∧ o = .normal ∧ u = t.print v
  | .cond test body rest => M.choose (M.eval test) (execBlock body) (execChain rest)
  | .loop test body => M.Loop (M.eval test) (execBlock body)
  | .each id collection body => fun s o u ↦ ∃ v t items, M.eval collection s v t ∧
      M.items? v = some items ∧ (execBlock body).each id items t o u
  | .ret none => fun s o u ↦ o = .returned none ∧ u = s
  | .ret (some value) => fun s o u ↦ ∃ v, M.eval value s v u ∧ o = .returned (some v)
  | .function _ _ => .skip
  | .call callee args type => fun s o u ↦ ∃ v, M.eval (.call callee args type) s v u ∧ o = .normal

def execBlock : List Stmt → Effect Value
  | [] => .skip
  | s :: rest => (exec s).andThen (execBlock rest)

def execChain : Chain → Effect Value
  | .finish => .skip
  | .otherwise body => execBlock body
  | .also test body rest => M.choose (M.eval test) (execBlock body) (execChain rest)

end

variable {M}

@[simp] theorem execBlock_singleton (s : Stmt) : M.execBlock [s] = M.exec s := by
  rw [execBlock, execBlock, Effect.andThen_skip]

theorem execBlock_append (a b : List Stmt) :
    M.execBlock (a ++ b) = (M.execBlock a).andThen (M.execBlock b) := by
  induction a with
  | nil => rw [List.nil_append, execBlock, Effect.skip_andThen]
  | cons s rest ih => rw [List.cons_append, execBlock, execBlock, ih, Effect.andThen_assoc]

/-! ## Literals that settle what happens -/

theorem eval_bool_iff {a b : Bool} {s t : State Value} :
    M.eval (.bool a) s (M.bool b) t ↔ b = a ∧ t = s := by
  have hinjective : M.bool b = M.bool a ↔ b = a := by
    cases a <;> cases b <;> simp [M.bool_ne, M.bool_ne.symm]
  rw [M.eval_bool, hinjective]

@[simp] theorem choose_true (yes no : Effect Value) :
    M.choose (M.eval (.bool true)) yes no = yes := by
  funext s o u
  simp [choose, eval_bool_iff]

@[simp] theorem choose_false (yes no : Effect Value) :
    M.choose (M.eval (.bool false)) yes no = no := by
  funext s o u
  simp [choose, eval_bool_iff]

@[simp] theorem loop_false (body : Effect Value) : M.Loop (M.eval (.bool false)) body = .skip := by
  funext s o u
  apply propext
  constructor
  · intro h
    cases h with
    | done htest => exact ⟨rfl, (eval_bool_iff.1 htest).2⟩
    | next htest => cases (eval_bool_iff.1 htest).1
    | exit htest => cases (eval_bool_iff.1 htest).1
  · rintro ⟨rfl, rfl⟩
    exact .done (eval_bool_iff.2 ⟨rfl, rfl⟩)

theorem exec_each_emptyArray (id : VarId) (type : Ty) (body : List Stmt) :
    M.exec (.each id (.array [] type) body) = .skip := by
  funext s o u
  rw [exec]
  simp only [M.eval_emptyArray]
  apply propext
  constructor
  · rintro ⟨v, t, items, ⟨rfl, rfl⟩, hitems, h⟩
    rw [M.items?_emptyArray] at hitems
    cases hitems
    exact h
  · intro h
    exact ⟨_, _, [], ⟨rfl, rfl⟩, M.items?_emptyArray, h⟩

theorem exec_assign_self (id : VarId) : M.exec (.assign id .set (.var id)) = .skip := by
  funext s o u
  rw [exec]
  simp only [M.eval_var, assigned?]
  apply propext
  constructor
  · rintro ⟨v, t, w, ⟨rfl, rfl⟩, hw, rfl, rfl⟩
    cases hw
    exact ⟨rfl, State.set_store_self _ _⟩
  · rintro ⟨rfl, rfl⟩
    exact ⟨_, _, _, ⟨rfl, rfl⟩, rfl, rfl, (State.set_store_self _ _).symm⟩

end Machine
end Core
end Barista
