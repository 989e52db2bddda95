import Barista.Proofs.Surface.Completeness
import Barista.Proofs.Token.Writing

/-!
# Prediction by the next token

The same grammar without trees: a stack of goals that are still to be read, and a table that tells
from the token ahead what becomes of the topmost goal.  A run over the table never goes back, so
where it gets stuck no other continuation would have helped; and whatever stack it reaches, there
are words that empty it.
-/

namespace Barista
namespace Surface

open Cursor (only)

/-- A token, and whether a line break lies in front of it. -/
abbrev Word := Token × Bool

/-! ## The table -/

inductive Goal
  | token (wanted : Token)
  | name
  | type
  | expression
  /-- The rest of a choice behind its test. -/
  | choice
  | level (l : Level)
  | operand (l : Level)
  /-- The operators of the level and their right operands. -/
  | chain (l : Level)
  | unary
  | primary
  | suffixes
  | exponent
  /-- The arguments behind a name. -/
  | callTail
  | items (close : Punct)
  | moreItems (close : Punct)
  | params
  | moreParams
  | paramType
  | paramsTail
  | statement
  | assignOrCall
  | returned
  | block
  | blockRest
  | branches
  | afterElse
  | program
deriving DecidableEq, Repr

/-- What becomes of a goal: other goals take its place, in front of the next word or behind it. -/
inductive Move
  | expand (goals : List Goal)
  | pass (goals : List Goal)
  | stuck
deriving DecidableEq, Repr

namespace Goal

/-- The goals behind a token, where the token begins the goal. -/
def accepts : Goal → Token → Option (List Goal)
  | token wanted, t => (only wanted t).map fun _ ↦ []
  | name, t => match t with
    | .ident _ => some []
    | _ => none
  | type, t => match t with
    | .keyword .array => some [token (.punct .openBracket), type, token (.punct .closeBracket)]
    | .keyword word => (plainType? word).map fun _ ↦ []
    | _ => none
  | choice, t => (only (.punct .question) t).map fun _ ↦
      [level .or, token (.punct .colon), expression]
  | chain l, t => (l.operator? t).map fun _ ↦
      operand l :: if l.repeats then [chain l] else []
  | unary, t => (unaryOp? t).map fun _ ↦ [unary]
  | primary, t => match t with
    | .ident _ => some [callTail]
    | .punct .openParen => some [expression, token (.punct .closeParen)]
    | .punct .openBracket => some [items .closeBracket]
    | t => (literal? t).map fun _ ↦ []
  | suffixes, t => (only (.punct .openBracket) t).map fun _ ↦
      [expression, token (.punct .closeBracket), suffixes]
  | exponent, t => (only (.symbol .caret) t).map fun _ ↦ [unary]
  | callTail, t => (only (.punct .openParen) t).map fun _ ↦ [items .closeParen]
  | items close, t => (only (.punct close) t).map fun _ ↦ []
  | moreItems close, t => (only (.punct .comma) t).map fun _ ↦ [expression, moreItems close]
  | params, t => (only (.punct .closeParen) t).map fun _ ↦ []
  | paramType, t => (only (.punct .colon) t).map fun _ ↦ [type]
  | paramsTail, t => (only (.punct .comma) t).map fun _ ↦ [moreParams]
  | statement, t => match t with
    | .keyword .func => some [name, token (.punct .openParen), params, token (.punct .arrow), type,
        block]
    | .keyword .print => some [token (.punct .openParen), expression, token (.punct .closeParen)]
    | .keyword .cond => some [expression, block, branches]
    | .keyword .loop => some [expression, block]
    | .keyword .each => some [name, token (.keyword .within), expression, block]
    | .keyword .ret => some [returned]
    | .ident _ => some [assignOrCall]
    | _ => none
  | assignOrCall, t => match t with
    | .punct .openParen => some [items .closeParen]
    | .symbol sign => (AssignOp.ofSymbol? sign).map fun _ ↦ [expression]
    | _ => none
  | blockRest, t => (only (.punct .closeBrace) t).map fun _ ↦ []
  | branches, t => (only (.keyword .otherwise) t).map fun _ ↦ [afterElse]
  | afterElse, t => (only (.keyword .cond) t).map fun _ ↦ [expression, block, branches]
  | expression, _ | level _, _ | operand _, _ | moreParams, _ | returned, _ | block, _
  | program, _ => none

/-- The goals in place of a goal that does not begin with the word ahead. -/
def otherwise (ahead : Option Word) : Goal → Option (List Goal)
  | token _ | name | type | primary | assignOrCall => none
  | choice | chain _ | suffixes | exponent | callTail | paramType | branches => some []
  | expression => some [level .or, choice]
  | level l => some [operand l, chain l]
  | operand l => some [l.tighter?.elim unary level]
  | unary => some [primary, suffixes, exponent]
  | items close => some [expression, moreItems close]
  | moreItems close => some [token (.punct close)]
  | params => some [moreParams]
  | moreParams => some [name, paramType, paramsTail]
  | paramsTail => some [token (.punct .closeParen)]
  | statement => some [type, name, token (.symbol .assign), expression]
  | returned => some (if ahead.any fun w ↦ w.1.startsExpression && !w.2 then [expression] else [])
  | block => some [token (.punct .openBrace), blockRest]
  | blockRest => some [statement, blockRest]
  | afterElse => some [block]
  | program => some (if ahead.isSome then [statement, program] else [])

def move (g : Goal) (ahead : Option Word) : Move :=
  match ahead.bind fun w ↦ g.accepts w.1 with
  | some goals => .pass goals
  | none => (g.otherwise ahead).elim .stuck .expand

variable {g : Goal} {goals : List Goal} {ahead : Option Word} {t : Token} {b : Bool}

theorem move_of_accepts (h : g.accepts t = some goals) : g.move (some (t, b)) = .pass goals := by
  simp [move, h]

/-- A goal is passed where the word ahead begins it, and otherwise what takes its place decides. -/
theorem move_cases (g : Goal) (ahead : Option Word) :
    (∃ t b goals, ahead = some (t, b) ∧ g.accepts t = some goals ∧ g.move ahead = .pass goals) ∨
      (∀ w ∈ ahead, g.accepts w.1 = none) ∧
        g.move ahead = (g.otherwise ahead).elim .stuck .expand := by
  rcases ahead with _ | ⟨t, b⟩
  · exact .inr ⟨by simp, rfl⟩
  · cases haccepts : g.accepts t with
    | none => exact .inr ⟨by simp [haccepts], by simp [move, haccepts]⟩
    | some goals => exact .inl ⟨t, b, goals, rfl, haccepts, move_of_accepts haccepts⟩

theorem move_of_refused (h : ∀ w ∈ ahead, g.accepts w.1 = none) :
    g.move ahead = (g.otherwise ahead).elim .stuck .expand := by
  rcases g.move_cases ahead with ⟨t, b, goals, rfl, haccepts, -⟩ | ⟨-, hmove⟩
  · cases (h _ rfl).symm.trans haccepts
  · exact hmove

theorem move_eq_expand (h : ∀ w ∈ ahead, g.accepts w.1 = none)
    (hgoals : g.otherwise ahead = some goals) : g.move ahead = .expand goals := by
  rw [move_of_refused h, hgoals, Option.elim_some]

theorem move_eq_stuck (h : ∀ w ∈ ahead, g.accepts w.1 = none) (hnone : g.otherwise ahead = none) :
    g.move ahead = .stuck := by
  rw [move_of_refused h, hnone, Option.elim_none]

theorem accepts_of_move (h : g.move ahead = .pass goals) : ∃ t, g.accepts t = some goals := by
  rcases g.move_cases ahead with ⟨t, b, new, -, haccepts, hmove⟩ | ⟨-, hmove⟩
  · cases hmove.symm.trans h
    exact ⟨t, haccepts⟩
  · rw [hmove] at h
    cases hnew : g.otherwise ahead <;> rw [hnew] at h <;> cases h

theorem otherwise_of_move (h : g.move ahead = .expand goals) : g.otherwise ahead = some goals := by
  rcases g.move_cases ahead with ⟨t, b, new, -, -, hmove⟩ | ⟨-, hmove⟩
  · cases hmove.symm.trans h
  · rw [hmove] at h
    cases hnew : g.otherwise ahead with
    | none =>
        rw [hnew] at h
        cases h
    | some new =>
        rw [hnew] at h
        cases h
        rfl

/-- Only the value of a `return` depends on the line break in front of it. -/
theorem move_of_ne_returned (h : g ≠ returned) (t : Token) (b b' : Bool) :
    g.move (some (t, b)) = g.move (some (t, b')) := by
  have hotherwise : g.otherwise (some (t, b)) = g.otherwise (some (t, b')) := by
    cases g <;> first | rfl | exact absurd rfl h
  simp only [move, Option.bind_some, hotherwise]

theorem returned_not_mem_otherwise (h : g.otherwise ahead = some goals) : returned ∉ goals := by
  cases g with
  | returned =>
      simp only [otherwise, Option.some.injEq] at h
      subst h
      split <;> simp
  | program =>
      simp only [otherwise, Option.some.injEq] at h
      subst h
      split <;> simp
  | operand l => cases l <;> cases h <;> simp [Level.tighter?]
  | _ => cases h <;> simp

end Goal

/-! ## Runs -/

/-- `Runs goals ws ys goals'`: with the words `ws` and then `ys` ahead, the goals become `goals'`
while the words `ws` are passed. -/
inductive Runs : List Goal → List Word → List Word → List Goal → Prop
  | nil {goals : List Goal} {ys : List Word} : Runs goals [] ys goals
  | expand {g : Goal} {new goals goals' : List Goal} {ws ys : List Word}
      (hmove : g.move (ws ++ ys).head? = .expand new) (h : Runs (new ++ goals) ws ys goals') :
      Runs (g :: goals) ws ys goals'
  | pass {g : Goal} {new goals goals' : List Goal} {w : Word} {ws ys : List Word}
      (hmove : g.move (some w) = .pass new) (h : Runs (new ++ goals) ws ys goals') :
      Runs (g :: goals) (w :: ws) ys goals'

namespace Runs

variable {goals goals₁ goals₂ more new : List Goal} {g : Goal} {w : Word}
  {ws ws₁ ws₂ ys zs : List Word}

theorem append (h₁ : Runs goals ws₁ (ws₂ ++ ys) goals₁) (h₂ : Runs goals₁ ws₂ ys goals₂) :
    Runs goals (ws₁ ++ ws₂) ys goals₂ := by
  generalize hahead : ws₂ ++ ys = ahead at h₁
  induction h₁ with
  | nil => exact h₂
  | expand hmove _ ih =>
      subst hahead
      refine .expand ?_ (ih h₂ rfl)
      rwa [List.append_assoc]
  | pass hmove _ ih => exact .pass hmove (ih h₂ hahead)

/-- The goals below those that are worked on do not matter. -/
theorem frame (h : Runs goals ws ys goals₁) (more : List Goal) :
    Runs (goals ++ more) ws ys (goals₁ ++ more) := by
  induction h with
  | nil => exact .nil
  | expand hmove _ ih =>
      rw [List.append_assoc] at ih
      exact .expand hmove ih
  | pass hmove _ ih =>
      rw [List.append_assoc] at ih
      exact .pass hmove ih

theorem andThen (h₁ : Runs goals ws₁ (ws₂ ++ ys) []) (h₂ : Runs more ws₂ ys goals₂) :
    Runs (goals ++ more) (ws₁ ++ ws₂) ys goals₂ :=
  (h₁.frame more).append h₂

/-- The words ahead are not looked at before the last of the words passed is. -/
theorem split (h : Runs goals ws ys goals₂) :
    ∃ goals₁, (∀ zs, Runs goals ws zs goals₁) ∧ Runs goals₁ [] ys goals₂ := by
  induction h with
  | nil => exact ⟨_, fun zs ↦ .nil, .nil⟩
  | @expand g new goals goals' ws ys hmove h ih =>
      cases ws with
      | nil => exact ⟨g :: goals, fun zs ↦ .nil, .expand hmove h⟩
      | cons w ws =>
          obtain ⟨goals₁, hruns, hrest⟩ := ih
          exact ⟨goals₁, fun zs ↦ .expand hmove (hruns zs), hrest⟩
  | pass hmove h ih =>
      obtain ⟨goals₁, hruns, hrest⟩ := ih
      exact ⟨goals₁, fun zs ↦ .pass hmove (hruns zs), hrest⟩

/-- How a run that comes to an end begins. -/
theorem cases_of_end (h : Runs (g :: goals) ws [] []) :
    (∃ new, g.move ws.head? = .expand new ∧ Runs (new ++ goals) ws [] []) ∨
    ∃ w ws' new, ws = w :: ws' ∧ g.move (some w) = .pass new ∧ Runs (new ++ goals) ws' [] [] := by
  cases h with
  | expand hmove h =>
      rw [List.append_nil] at hmove
      exact .inl ⟨_, hmove, h⟩
  | pass hmove h => exact .inr ⟨_, _, _, rfl, hmove, h⟩

/-- Where a run is stuck, no run with the same words up to there comes to an end. -/
theorem not_of_stuck (h : Runs goals ws ys (g :: more)) (hstuck : g.move ys.head? = .stuck)
    (hahead : ys.head? = zs.head?) : ¬ Runs goals (ws ++ zs) [] [] := by
  intro hend
  generalize hstack : g :: more = stack at h
  induction h with
  | nil =>
      subst hstack
      rw [hahead] at hstuck
      rcases hend.cases_of_end with ⟨new, hmove, -⟩ | ⟨w, ws', new, hws, hmove, -⟩
      · cases hstuck.symm.trans hmove
      · rw [List.nil_append] at hws
        rw [hws] at hstuck
        cases hstuck.symm.trans hmove
  | @expand g' new goals goals' ws ys hmove _ ih =>
      have hhead : (ws ++ ys).head? = (ws ++ zs).head? := by
        rw [List.head?_append, List.head?_append, hahead]
      rw [hhead] at hmove
      rcases hend.cases_of_end with ⟨new', hmove', hend⟩ | ⟨w, ws', new', hws, hmove', -⟩
      · cases hmove.symm.trans hmove'
        exact ih hstuck hahead hend hstack
      · rw [hws] at hmove
        cases hmove.symm.trans hmove'
  | @pass g' new goals goals' w ws ys hmove _ ih =>
      rcases hend.cases_of_end with ⟨new', hmove', -⟩ | ⟨w', ws', new', hws, hmove', hend⟩
      · cases hmove.symm.trans hmove'
      · cases hws
        cases hmove.symm.trans hmove'
        exact ih hstuck hahead hend hstack

/-- Before the first word no line break matters. -/
theorem onNewLine_irrelevant {t : Token} {b : Bool} (h : Runs goals ((t, b) :: ws) ys goals₁)
    (hgoals : .returned ∉ goals) (b' : Bool) : Runs goals ((t, b') :: ws) ys goals₁ := by
  generalize hwords : (t, b) :: ws = words at h
  induction h with
  | nil => cases hwords
  | expand hmove _ ih =>
      obtain ⟨hg, hgoals⟩ := List.ne_and_not_mem_of_not_mem_cons hgoals
      subst hwords
      have hmove' : _ = _ := (Goal.move_of_ne_returned hg.symm t b b').symm.trans hmove
      refine .expand hmove' (ih ?_ rfl)
      rw [List.mem_append, not_or]
      exact ⟨Goal.returned_not_mem_otherwise (Goal.otherwise_of_move hmove), hgoals⟩
  | pass hmove h =>
      obtain ⟨hg, -⟩ := List.ne_and_not_mem_of_not_mem_cons hgoals
      cases hwords
      exact .pass ((Goal.move_of_ne_returned hg.symm t b b').symm.trans hmove) h

end Runs

/-! ## Completions -/

namespace Goal

/-- Words that fulfil a goal. -/
def completion : Goal → List Word
  | token wanted => [(wanted, false)]
  | name => [(.ident "x", false)]
  | type => [(.keyword .int, false)]
  | expression | level _ | operand _ | unary | primary | returned => [(.keyword .yes, false)]
  | choice | chain _ | suffixes | exponent | callTail | branches | program => []
  | items close | moreItems close => [(.punct close, false)]
  | params | paramsTail => [(.punct .closeParen, false)]
  | moreParams => [(.ident "x", false), (.punct .colon, false), (.keyword .int, false),
      (.punct .closeParen, false)]
  | paramType => [(.punct .colon, false), (.keyword .int, false)]
  | statement => [(.ident "x", false), (.symbol .assign, false), (.keyword .yes, false)]
  | assignOrCall => [(.symbol .assign, false), (.keyword .yes, false)]
  | block | afterElse => [(.punct .openBrace, false), (.punct .closeBrace, false)]
  | blockRest => [(.punct .closeBrace, false)]

/-- Only a token of this grip or a greater one can stand behind the goal. -/
def reach : Goal → Nat
  | primary | callTail => 1
  | suffixes => 2
  | unary | exponent => 3
  | operand l => l.rank + 2
  | level l | chain l => l.rank + 3
  | expression | choice | returned | assignOrCall => 9
  | statement | branches | afterElse => 10
  | _ => 0

/-- The goal is fulfilled by its completion when `next` follows. -/
def Fits : Goal → Option Token → Prop
  | token wanted, _ => wanted.Writable
  | items close, _ | moreItems close, _ => close = .closeParen ∨ close = .closeBracket
  | program, next => next = none
  | g, next => ∀ t ∈ next, g.reach ≤ grip t

end Goal

def completions (goals : List Goal) : List Word := goals.flatMap Goal.completion

/-- The first token of the completion of a stack in front of `next`. -/
def firstToken (goals : List Goal) (next : Option Token) : Option Token :=
  ((completions goals).head?.map Prod.fst).or next

/-- Each goal of a stack fits in front of the others. -/
def Fit : List Goal → Option Token → Prop
  | [], _ => True
  | g :: goals, next => g.Fits (firstToken goals next) ∧ Fit goals next

theorem completions_append (goals more : List Goal) :
    completions (goals ++ more) = completions goals ++ completions more :=
  List.flatMap_append

theorem firstToken_append (goals more : List Goal) (next : Option Token) :
    firstToken (goals ++ more) next = firstToken goals (firstToken more next) := by
  simp [firstToken, completions_append, List.head?_append, Option.or_assoc, Option.map_or]

theorem fit_append {goals more : List Goal} {next : Option Token} :
    Fit (goals ++ more) next ↔ Fit goals (firstToken more next) ∧ Fit more next := by
  induction goals with
  | nil => simp [Fit]
  | cons g goals ih => simp [Fit, ih, firstToken_append, and_assoc]

theorem firstToken_eq_head? (goals : List Goal) (ys : List Word) :
    firstToken goals (ys.head?.map Prod.fst) = (completions goals ++ ys).head?.map Prod.fst := by
  rw [firstToken, List.head?_append, Option.map_or]

namespace Goal

variable {g : Goal} {new : List Goal} {next : Option Token} {t : Token} {ys : List Word} {n m : Nat}

theorem le_grip_of_some (h : n ≤ grip t) : ∀ u ∈ some t, n ≤ grip u := by
  rintro _ ⟨⟩
  exact h

theorem le_grip_mono (h : ∀ t ∈ next, n ≤ grip t) (hm : m ≤ n) : ∀ t ∈ next, m ≤ grip t :=
  fun t ht ↦ Nat.le_trans hm (h t ht)

theorem zero_le_grip : ∀ t ∈ next, 0 ≤ grip t := fun _ _ ↦ Nat.zero_le _

theorem le_grip_of_close {close : Punct} (h : close = .closeParen ∨ close = .closeBracket) :
    ∀ t ∈ some (Token.punct close), 9 ≤ grip t := by
  rcases h with rfl | rfl <;> exact le_grip_of_some (by decide)

/-- What comes behind the first token of a goal fits in front of what follows the goal. -/
theorem fit_of_accepts (hg : g.Fits next) (h : g.accepts t = some new) : Fit new next := by
  cases g with
  | token _ | items _ | params | blockRest =>
      obtain ⟨_, _, rfl⟩ := Option.map_eq_some_iff.1 h
      trivial
  | choice | suffixes =>
      obtain ⟨_, _, rfl⟩ := Option.map_eq_some_iff.1 h
      exact ⟨le_grip_of_some (by decide), trivial, hg, trivial⟩
  | chain l =>
      obtain ⟨_, _, rfl⟩ := Option.map_eq_some_iff.1 h
      have hoperand : (operand l).Fits next := le_grip_mono hg (Nat.le_succ _)
      split
      · exact ⟨hoperand, hg, trivial⟩
      · exact ⟨hoperand, trivial⟩
  | unary | exponent | branches =>
      obtain ⟨_, _, rfl⟩ := Option.map_eq_some_iff.1 h
      exact ⟨hg, trivial⟩
  | callTail =>
      obtain ⟨_, _, rfl⟩ := Option.map_eq_some_iff.1 h
      exact ⟨.inl rfl, trivial⟩
  | moreItems close =>
      obtain ⟨_, _, rfl⟩ := Option.map_eq_some_iff.1 h
      exact ⟨le_grip_of_close hg, hg, trivial⟩
  | paramType | paramsTail =>
      obtain ⟨_, _, rfl⟩ := Option.map_eq_some_iff.1 h
      exact ⟨zero_le_grip, trivial⟩
  | afterElse =>
      obtain ⟨_, _, rfl⟩ := Option.map_eq_some_iff.1 h
      exact ⟨le_grip_of_some (by decide), zero_le_grip, hg, trivial⟩
  | name =>
      simp only [accepts] at h
      split at h
      · cases h
        trivial
      · cases h
  | type =>
      simp only [accepts] at h
      split at h
      · cases h
        exact ⟨trivial, zero_le_grip, trivial, trivial⟩
      · obtain ⟨_, _, rfl⟩ := Option.map_eq_some_iff.1 h
        trivial
      · cases h
  | primary =>
      simp only [accepts] at h
      split at h
      · cases h
        exact ⟨hg, trivial⟩
      · cases h
        exact ⟨le_grip_of_some (by decide), trivial, trivial⟩
      · cases h
        exact ⟨.inr rfl, trivial⟩
      · obtain ⟨_, _, rfl⟩ := Option.map_eq_some_iff.1 h
        trivial
  | assignOrCall =>
      simp only [accepts] at h
      split at h
      · cases h
        exact ⟨.inl rfl, trivial⟩
      · obtain ⟨_, _, rfl⟩ := Option.map_eq_some_iff.1 h
        exact ⟨hg, trivial⟩
      · cases h
  | statement =>
      simp only [accepts] at h
      split at h
      · cases h
        exact ⟨zero_le_grip, trivial, zero_le_grip, trivial, zero_le_grip, zero_le_grip, trivial⟩
      · cases h
        exact ⟨trivial, le_grip_of_some (by decide), trivial, trivial⟩
      · cases h
        exact ⟨le_grip_of_some (by decide), zero_le_grip, hg, trivial⟩
      · cases h
        exact ⟨le_grip_of_some (by decide), zero_le_grip, trivial⟩
      · cases h
        exact ⟨zero_le_grip, trivial, le_grip_of_some (by decide), zero_le_grip, trivial⟩
      · cases h
        exact ⟨le_grip_mono hg (by decide), trivial⟩
      · cases h
        exact ⟨le_grip_mono hg (by decide), trivial⟩
      · cases h
  | expression | level _ | operand _ | moreParams | returned | block | program => cases h

/-- So does what takes the place of a goal. -/
theorem fit_of_otherwise {ahead : Option Word} (hg : g.Fits next)
    (h : g.otherwise ahead = some new) : Fit new next := by
  cases g with
  | token _ | name | type | primary | assignOrCall => cases h
  | choice | chain _ | suffixes | exponent | callTail | paramType | branches =>
      cases h
      trivial
  | expression =>
      cases h
      exact ⟨le_grip_mono hg (by decide), hg, trivial⟩
  | level l =>
      cases h
      exact ⟨le_grip_mono hg (Nat.le_succ _), hg, trivial⟩
  | operand l =>
      cases l <;> cases h <;> exact ⟨hg, trivial⟩
  | unary =>
      cases h
      exact ⟨le_grip_mono hg (by decide), le_grip_mono hg (by decide), hg, trivial⟩
  | items close =>
      cases h
      exact ⟨le_grip_of_close hg, hg, trivial⟩
  | moreItems close =>
      cases h
      exact ⟨trivial, trivial⟩
  | params | afterElse =>
      cases h
      exact ⟨zero_le_grip, trivial⟩
  | moreParams =>
      cases h
      exact ⟨zero_le_grip, zero_le_grip, zero_le_grip, trivial⟩
  | paramsTail =>
      cases h
      exact ⟨trivial, trivial⟩
  | statement =>
      cases h
      exact ⟨zero_le_grip, zero_le_grip, trivial, le_grip_mono hg (by decide), trivial⟩
  | returned =>
      simp only [otherwise, Option.some.injEq] at h
      subst h
      split
      · exact ⟨hg, trivial⟩
      · trivial
  | block =>
      cases h
      exact ⟨trivial, zero_le_grip, trivial⟩
  | blockRest =>
      cases h
      exact ⟨le_grip_of_some (by decide), zero_le_grip, trivial⟩
  | program =>
      cases hg
      simp only [otherwise, Option.some.injEq] at h
      subst h
      split
      · exact ⟨(fun _ h ↦ nomatch h), rfl, trivial⟩
      · trivial

/-- A goal that can be empty is so in front of what fits behind it. -/
theorem accepts_eq_none (hg : g ∈ [choice, suffixes, exponent, callTail, branches])
    (ht : g.reach ≤ grip t) : g.accepts t = none := by
  rw [Option.eq_none_iff_forall_ne_some]
  intro new hnew
  simp only [List.mem_cons, List.not_mem_nil, or_false] at hg
  rcases hg with rfl | rfl | rfl | rfl | rfl
  all_goals
    obtain ⟨_, honly, -⟩ := Option.map_eq_some_iff.1 hnew
    rw [Cursor.only_eq_some_iff.1 honly] at ht
    exact absurd ht (by decide)

theorem accepts_chain_eq_none {l : Level} (ht : l.rank + 3 ≤ grip t) :
    (chain l).accepts t = none := by
  rw [Option.eq_none_iff_forall_ne_some]
  intro new hnew
  obtain ⟨op, hop, -⟩ := Option.map_eq_some_iff.1 hnew
  obtain ⟨hmem, rfl⟩ := Level.operator?_eq_some_iff.1 hop
  rw [grip_operator hmem] at ht
  omega

/-- The moves that a goal makes on its completion lead to goals of a smaller depth. -/
def depth : Goal → Nat
  | unary | block | moreItems _ | paramType | paramsTail => 1
  | operand l => 2 * l.rank
  | level l => 2 * l.rank + 1
  | expression => 12
  | returned | assignOrCall => 13
  | statement => 14
  | afterElse | moreParams => 2
  | _ => 0

theorem depth_lt (g : Goal) : g.depth < 15 := by
  cases g with
  | level l | operand l =>
      have hrank := l.rank_le
      simp only [depth]
      omega
  | _ => simp [depth]

theorem depth_operand (l : Level) : (l.tighter?.elim unary level).depth < (operand l).depth := by
  cases l <;> decide

/-- The first move on the completion of a goal leaves the completion of the goals it leads to. -/
theorem completion_step (hg : g.Fits (ys.head?.map Prod.fst)) :
    ∃ new, (∀ g' ∈ new, g'.depth < g.depth) ∧
      (g.move (g.completion ++ ys).head? = .expand new ∧ g.completion = completions new ∨
        ∃ w, g.move (some w) = .pass new ∧ g.completion = w :: completions new) := by
  have hgrip : ∀ n, (∀ t ∈ ys.head?.map Prod.fst, n ≤ grip t) →
      ∀ w ∈ ys.head?, n ≤ grip w.1 := by
    intro n h w hw
    exact h w.1 (Option.mem_map_of_mem _ hw)
  cases g with
  | choice | suffixes | exponent | callTail | branches =>
      refine ⟨[], List.forall_mem_nil _, .inl ⟨move_eq_expand (fun w hw ↦ ?_) rfl, rfl⟩⟩
      exact accepts_eq_none (by decide) (hgrip _ hg w hw)
  | chain l =>
      refine ⟨[], List.forall_mem_nil _, .inl ⟨move_eq_expand (fun w hw ↦ ?_) rfl, rfl⟩⟩
      exact accepts_chain_eq_none (hgrip _ hg w hw)
  | program =>
      have hys : ys = [] := by simpa [Fits] using hg
      subst hys
      exact ⟨[], List.forall_mem_nil _, .inl ⟨rfl, rfl⟩⟩
  | token _ | items _ =>
      exact ⟨[], List.forall_mem_nil _, .inr ⟨_, move_of_accepts (by simp [accepts, only]), rfl⟩⟩
  | name | type | primary | params | blockRest =>
      exact ⟨[], List.forall_mem_nil _, .inr ⟨_, rfl, rfl⟩⟩
  | expression => exact ⟨[level .or, choice], by decide, .inl ⟨rfl, rfl⟩⟩
  | level l => exact ⟨[operand l, chain l], by simp [depth], .inl ⟨rfl, rfl⟩⟩
  | operand l =>
      refine ⟨_, List.forall_mem_singleton.2 (depth_operand l), .inl ⟨rfl, ?_⟩⟩
      cases l <;> rfl
  | unary => exact ⟨[primary, suffixes, exponent], by decide, .inl ⟨rfl, rfl⟩⟩
  | moreItems close =>
      refine ⟨[token (.punct close)], by simp [depth], .inl ⟨?_, rfl⟩⟩
      rcases hg with rfl | rfl <;> rfl
  | moreParams => exact ⟨[name, paramType, paramsTail], by decide, .inl ⟨rfl, rfl⟩⟩
  | paramsTail => exact ⟨[token (.punct .closeParen)], by decide, .inl ⟨rfl, rfl⟩⟩
  | returned => exact ⟨[expression], by decide, .inl ⟨rfl, rfl⟩⟩
  | block => exact ⟨[token (.punct .openBrace), blockRest], by decide, .inl ⟨rfl, rfl⟩⟩
  | afterElse => exact ⟨[block], by decide, .inl ⟨rfl, rfl⟩⟩
  | paramType => exact ⟨[type], by decide, .inr ⟨_, rfl, rfl⟩⟩
  | statement => exact ⟨[assignOrCall], by decide, .inr ⟨_, rfl, rfl⟩⟩
  | assignOrCall => exact ⟨[expression], by decide, .inr ⟨_, rfl, rfl⟩⟩

theorem writable_of_fits (hg : g.Fits next) : ∀ w ∈ g.completion, w.1.Writable := by
  have hx : (Token.ident "x").Writable := by
    refine ⟨Pattern.mem_name.2 ⟨'x', [], rfl, by decide, List.forall_mem_nil _⟩, ?_⟩
    rw [Pattern.mem_keyword_iff]
    decide
  cases g <;> simp_all [completion, Token.Writable, Fits]

end Goal

/-- Goals that fit in front of what follows are fulfilled by their completions. -/
theorem runs_completions (n : Nat) {goals : List Goal} {ys : List Word}
    (hdepth : ∀ g ∈ goals, g.depth < n) (hfit : Fit goals (ys.head?.map Prod.fst)) :
    Runs goals (completions goals) ys [] := by
  induction n generalizing goals ys with
  | zero =>
      cases goals with
      | nil => exact .nil
      | cons g goals => exact absurd (hdepth g List.mem_cons_self) (Nat.not_lt_zero _)
  | succ n ih =>
      induction goals with
      | nil => exact .nil
      | cons g goals ihgoals =>
          obtain ⟨hg, hgoals⟩ := List.forall_mem_cons.1 hdepth
          obtain ⟨hfits, hfit⟩ := hfit
          rw [firstToken_eq_head?] at hfits
          obtain ⟨new, hsmaller, hstep⟩ := Goal.completion_step hfits
          have hnew : ∀ g' ∈ new, g'.depth < n := fun g' hg' ↦
            Nat.lt_of_lt_of_le (hsmaller g' hg') (Nat.le_of_lt_succ hg)
          have hruns : Runs [g] g.completion (completions goals ++ ys) [] := by
            rcases hstep with ⟨hmove, hcompletion⟩ | ⟨w, hmove, hcompletion⟩
            · refine .expand hmove ?_
              rw [List.append_nil, hcompletion]
              exact ih hnew (Goal.fit_of_otherwise hfits (Goal.otherwise_of_move hmove))
            · obtain ⟨t, haccepts⟩ := Goal.accepts_of_move hmove
              rw [hcompletion]
              refine .pass hmove ?_
              rw [List.append_nil]
              exact ih hnew (Goal.fit_of_accepts hfits haccepts)
          exact hruns.andThen (ihgoals hgoals hfit)

theorem writable_of_fit {goals : List Goal} {next : Option Token} (h : Fit goals next) :
    ∀ w ∈ completions goals, w.1.Writable := by
  induction goals with
  | nil => exact List.forall_mem_nil _
  | cons g goals ih =>
      intro w hw
      rw [completions, List.flatMap_cons, List.mem_append] at hw
      rcases hw with hw | hw
      · exact Goal.writable_of_fits h.1 w hw
      · exact ih h.2 w hw

namespace Runs

variable {goals goals₁ : List Goal} {ws ys : List Word}

/-- Every stack that a run reaches fits. -/
theorem fit (h : Runs goals ws ys goals₁) (hfit : Fit goals none) : Fit goals₁ none := by
  induction h with
  | nil => exact hfit
  | expand hmove _ ih =>
      refine ih (fit_append.2 ⟨?_, hfit.2⟩)
      exact Goal.fit_of_otherwise hfit.1 (Goal.otherwise_of_move hmove)
  | pass hmove _ ih =>
      obtain ⟨t, haccepts⟩ := Goal.accepts_of_move hmove
      exact ih (fit_append.2 ⟨Goal.fit_of_accepts hfit.1 haccepts, hfit.2⟩)

/-- What has been passed can be completed. -/
theorem exists_completion (h : Runs goals ws ys goals₁) (hfit : Fit goals none) :
    ∃ vs : List Word, (∀ w ∈ vs, w.1.Writable) ∧ Runs goals (ws ++ vs) [] [] := by
  obtain ⟨reached, hruns, -⟩ := h.split
  have hreached : Fit reached none := (hruns []).fit hfit
  refine ⟨completions reached, writable_of_fit hreached, (hruns _).append ?_⟩
  exact runs_completions 15 (fun g _ ↦ g.depth_lt) hreached

end Runs

end Surface
end Barista
