import Barista.Proofs.Surface.Prediction

/-!
# Readers follow the table

Each reader moves along a stream as a run for its goal does: it succeeds where the run has fulfilled
the goal, and it fails at a word, or at the end, where the run is stuck.  There is one law for each
way to put readers together, and then one statement per reader that recurses as the reader does.
-/

namespace Barista

/-- The token of a lexeme and whether it is the first of its line. -/
def Lexeme.word (l : Lexeme) : Surface.Word := (l.token, l.onNewLine)

/-- The words up to the first fault. -/
def Item.words (items : List Item) : List Surface.Word := (Item.lexemes items).1.map Lexeme.word

theorem Item.words_append (ls : List Lexeme) (items : List Item) :
    words (ls.map .lexeme ++ items) = ls.map Lexeme.word ++ words items := by
  induction ls with
  | nil => rfl
  | cons l ls ih => exact congrArg (List.cons l.word) ih

theorem Item.words_map (ls : List Lexeme) : words (ls.map .lexeme) = ls.map Lexeme.word := by
  have hwords := words_append ls []
  rwa [List.append_nil, show words [] = [] from rfl, List.append_nil] at hwords

/-- Words are told by their tokens and by the line breaks in front of them. -/
theorem Lexeme.map_word (ls : List Lexeme) :
    ls.map word = (ls.map token).zip (ls.map onNewLine) := by
  rw [List.zip_map']
  rfl

namespace Surface

open Cursor (only)
open Item (words)

/-! ## Outcomes and runs -/

/-- A run for the goals leads to `rest`, where the goals `stack` are left. -/
def Leads (goals : List Goal) (c : Cursor) (rest : List Item) (stack : List Goal) : Prop :=
  ∃ ls : List Lexeme, c.items = ls.map .lexeme ++ rest ∧
    Runs goals (ls.map Lexeme.word) (words rest) stack

/-- A run for the goals leads from one cursor to the other, and no goal is left. -/
def Fulfils (goals : List Goal) (c r : Cursor) : Prop :=
  Leads goals c r.items [] ∧ r.stop = c.stop

/-- A run for the goals is stuck in front of `rest`. -/
def StuckAt (goals : List Goal) (c : Cursor) (rest : List Item) : Prop :=
  ∃ (g : Goal) (more : List Goal), Leads goals c rest (g :: more) ∧
    g.move (words rest).head? = .stuck

/-- The error tells where a run for the goals is stuck. -/
def FailsAt (goals : List Goal) (c : Cursor) : SyntaxError → Prop
  | .lexical f => .fault f ∈ c.items
  | .unexpectedToken _ t s =>
    ∃ l others, l.token = t ∧ l.span = s ∧ StuckAt goals c (.lexeme l :: others)
  | .unexpectedEnd _ s => s = c.stopSpan ∧ StuckAt goals c []

/-- Reading from `c` ends as a run for the goals does. -/
def Outcome.Mirrors {n : Nat} {α : Type} (goals : List Goal) (c : Cursor) : Outcome n α → Prop
  | .ok _ r _ => Fulfils goals c r
  | .fail e _ => FailsAt goals c e

section Laws

variable {c r r' : Cursor} {goals more new stack : List Goal} {g : Goal} {l : Lexeme}
  {rest : List Item} {e : SyntaxError}

theorem leads_nil (goals : List Goal) (c : Cursor) : Leads goals c c.items goals :=
  ⟨[], rfl, .nil⟩

theorem Leads.frame (h : Leads goals c rest stack) (more : List Goal) :
    Leads (goals ++ more) c rest (stack ++ more) := by
  obtain ⟨ls, hitems, hruns⟩ := h
  exact ⟨ls, hitems, hruns.frame more⟩

theorem Leads.trans (h₁ : Leads goals c r.items []) (h₂ : Leads more r rest stack) :
    Leads (goals ++ more) c rest stack := by
  obtain ⟨ls₁, hitems₁, hruns₁⟩ := h₁
  obtain ⟨ls₂, hitems₂, hruns₂⟩ := h₂
  refine ⟨ls₁ ++ ls₂, ?_, ?_⟩
  · rw [hitems₁, hitems₂, List.map_append, List.append_assoc]
  · rw [hitems₂, Item.words_append] at hruns₁
    rw [List.map_append]
    exact hruns₁.andThen hruns₂

theorem Leads.expand (hmove : g.move (words c.items).head? = .expand new)
    (h : Leads new c rest stack) : Leads [g] c rest stack := by
  obtain ⟨ls, hitems, hruns⟩ := h
  rw [hitems, Item.words_append] at hmove
  rw [← List.append_nil new] at hruns
  exact ⟨ls, hitems, .expand hmove hruns⟩

/-- The first token of a goal is passed. -/
theorem Leads.pass (hitems : c.items = .lexeme l :: r.items)
    (haccepts : g.accepts l.token = some new) (h : Leads new r rest stack) :
    Leads [g] c rest stack := by
  obtain ⟨ls, hitems', hruns⟩ := h
  rw [← List.append_nil new] at hruns
  refine ⟨l :: ls, ?_, .pass (Goal.move_of_accepts haccepts) hruns⟩
  rw [hitems, hitems', List.map_cons, List.cons_append]

theorem Leads.mem_items {item : Item} (h : Leads goals c rest stack) (hitem : item ∈ rest) :
    item ∈ c.items := by
  obtain ⟨ls, hitems, -⟩ := h
  rw [hitems]
  exact List.mem_append_right _ hitem

theorem fulfils_nil (c : Cursor) : Fulfils [] c c :=
  ⟨leads_nil [] c, rfl⟩

theorem Fulfils.pass (hitems : c.items = .lexeme l :: r.items) (hstop : r.stop = c.stop)
    (haccepts : g.accepts l.token = some new) (h : Fulfils new r r') : Fulfils [g] c r' :=
  ⟨.pass hitems haccepts h.1, h.2.trans hstop⟩

theorem stuckAt_here (hstuck : g.move (words c.items).head? = .stuck) : StuckAt [g] c c.items :=
  ⟨g, [], leads_nil [g] c, hstuck⟩

theorem StuckAt.frame (h : StuckAt goals c rest) (more : List Goal) :
    StuckAt (goals ++ more) c rest := by
  obtain ⟨g, others, hleads, hstuck⟩ := h
  exact ⟨g, others ++ more, hleads.frame more, hstuck⟩

theorem StuckAt.after (h₁ : Leads goals c r.items []) (h₂ : StuckAt more r rest) :
    StuckAt (goals ++ more) c rest := by
  obtain ⟨g, others, hleads, hstuck⟩ := h₂
  exact ⟨g, others, h₁.trans hleads, hstuck⟩

theorem StuckAt.expand (hmove : g.move (words c.items).head? = .expand new)
    (h : StuckAt new c rest) : StuckAt [g] c rest := by
  obtain ⟨g', others, hleads, hstuck⟩ := h
  exact ⟨g', others, hleads.expand hmove, hstuck⟩

theorem StuckAt.pass (hitems : c.items = .lexeme l :: r.items)
    (haccepts : g.accepts l.token = some new) (h : StuckAt new r rest) : StuckAt [g] c rest := by
  obtain ⟨g', others, hleads, hstuck⟩ := h
  exact ⟨g', others, hleads.pass hitems haccepts, hstuck⟩

/-- An error tells of an earlier cursor what it tells of a later one. -/
theorem FailsAt.imp (hitems : ∀ item ∈ r.items, item ∈ c.items) (hstop : r.stop = c.stop)
    (hstuck : ∀ rest, StuckAt goals r rest → StuckAt more c rest) (h : FailsAt goals r e) :
    FailsAt more c e := by
  cases e with
  | lexical f => exact hitems _ h
  | unexpectedToken expected t s =>
      obtain ⟨l, others, ht, hs, h⟩ := h
      exact ⟨l, others, ht, hs, hstuck _ h⟩
  | unexpectedEnd expected s =>
      obtain ⟨hs, h⟩ := h
      refine ⟨hs.trans ?_, hstuck _ h⟩
      rw [Cursor.stopSpan, Cursor.stopSpan, hstop]

end Laws

namespace Outcome

variable {α β : Type} {n m : Nat} {o : Outcome n α} {c r : Cursor} {goals more new : List Goal}
  {g : Goal} {l : Lexeme}

theorem mirrors_done {value : α} : (Outcome.done value c).Mirrors [] c :=
  fulfils_nil c

theorem Mirrors.mono (h : o.Mirrors goals c) (hle : n ≤ m) : (o.mono hle).Mirrors goals c := by
  cases o <;> exact h

theorem Mirrors.relax (h : o.Mirrors goals c) : o.relax.Mirrors goals c :=
  h.mono _

theorem Mirrors.after (h : o.Mirrors goals c) {hlt : n < m} : (o.after hlt).Mirrors goals c :=
  h.mono _

theorem Mirrors.map (h : o.Mirrors goals c) (f : α → β) : (o.map f).Mirrors goals c := by
  cases o <;> exact h

theorem Mirrors.append
    {f : α → (rest : Cursor) → rest.length < n → Outcome (rest.length + 1) β}
    (h : o.Mirrors goals c) (hf : ∀ a r hlt, (f a r hlt).Mirrors more r) :
    (o.andThen f).Mirrors (goals ++ more) c := by
  cases o with
  | ok value r hlt =>
      obtain ⟨hleads, hstop⟩ : Fulfils goals c r := h
      have hrest := hf value r hlt
      refine Mirrors.mono ?_ hlt
      cases hvalue : f value r hlt with
      | ok value' r' hlt' =>
          rw [hvalue] at hrest
          exact ⟨hleads.trans hrest.1, hrest.2.trans hstop⟩
      | fail error r' =>
          rw [hvalue] at hrest
          exact FailsAt.imp (fun _ hitem ↦ hleads.mem_items hitem) hstop
            (fun rest hstuck ↦ .after hleads hstuck) hrest
  | fail error r => exact FailsAt.imp (fun _ h ↦ h) rfl (fun rest hstuck ↦ hstuck.frame more) h

theorem Mirrors.andThen
    {f : α → (rest : Cursor) → rest.length < n → Outcome (rest.length + 1) β}
    (h : o.Mirrors [g] c) (hf : ∀ a r hlt, (f a r hlt).Mirrors more r) :
    (o.andThen f).Mirrors (g :: more) c :=
  h.append hf

/-- The goals of the phrase take the place of a goal that the next word does not begin. -/
theorem Mirrors.expand (h : o.Mirrors new c)
    (haccepts : ∀ w ∈ (words c.items).head?, g.accepts w.1 = none)
    (hnew : g.otherwise (words c.items).head? = some new) : o.Mirrors [g] c := by
  have hmove := Goal.move_eq_expand haccepts hnew
  cases o with
  | ok value r hlt => exact ⟨.expand hmove h.1, h.2⟩
  | fail error r => exact FailsAt.imp (fun _ h ↦ h) rfl (fun rest hstuck ↦ .expand hmove hstuck) h

theorem Mirrors.pass (h : o.Mirrors new r) (hitems : c.items = .lexeme l :: r.items)
    (hstop : r.stop = c.stop) (haccepts : g.accepts l.token = some new) : o.Mirrors [g] c := by
  cases o with
  | ok value r' hlt => exact Fulfils.pass hitems hstop haccepts h
  | fail error r' =>
      refine FailsAt.imp ?_ hstop (fun rest hstuck ↦ .pass hitems haccepts hstuck) h
      intro item hitem
      rw [hitems]
      exact List.mem_cons_of_mem _ hitem

/-- A goal that no token begins. -/
theorem Mirrors.replace (h : o.Mirrors new c) (haccepts : ∀ t, g.accepts t = none)
    (hnew : ∀ w, g.otherwise w = some new) : o.Mirrors [g] c :=
  h.expand (fun w _ ↦ haccepts w.1) (hnew _)

end Outcome

/-! ## Tokens -/

open Outcome

section Tokens

variable {α β : Type} {n : Nat} {c r : Cursor} {g : Goal} {goals new : List Goal} {l : Lexeme}

theorem items_of_view {shorter : r.length < c.length} (h : c.view = .lexeme l r shorter) :
    c.items = .lexeme l :: r.items ∧ r.stop = c.stop := by
  obtain ⟨_ | ⟨_ | _, items⟩, last, stop⟩ := c <;> cases h
  exact ⟨rfl, rfl⟩

theorem fault_mem_of_view {f : Fault} {shorter : r.length < c.length}
    (h : c.view = .fault f r shorter) : .fault f ∈ c.items := by
  obtain ⟨_ | ⟨_ | _, items⟩, last, stop⟩ := c <;> cases h
  exact List.mem_cons_self

theorem head?_words (h : c.items = .lexeme l :: r.items) :
    (words c.items).head? = some l.word := by
  rw [h]
  rfl

theorem head?_words_of_finish (h : c.view = .finish) : (words c.items).head? = none := by
  rw [Cursor.items_of_view_finish h]
  rfl

theorem refused_of_token (hitems : c.items = .lexeme l :: r.items)
    (haccepts : g.accepts l.token = none) :
    ∀ w ∈ (words c.items).head?, g.accepts w.1 = none := by
  intro w hw
  rw [head?_words hitems] at hw
  obtain rfl := Option.mem_some.1 hw
  exact haccepts

theorem refused_of_finish (hview : c.view = .finish) :
    ∀ w ∈ (words c.items).head?, g.accepts w.1 = none := by
  intro w hw
  rw [head?_words_of_finish hview] at hw
  cases hw

theorem mirrors_token {expected : Expectation} {r' : Cursor}
    (hitems : c.items = .lexeme l :: r.items) (h : StuckAt [g] c c.items) :
    (Outcome.fail (.unexpectedToken expected l.token l.span) r' : Outcome n α).Mirrors [g] c := by
  rw [hitems] at h
  exact ⟨l, r.items, rfl, rfl, h⟩

theorem mirrors_end {expected : Expectation} {r' : Cursor} (hview : c.view = .finish)
    (h : StuckAt [g] c c.items) :
    (Outcome.fail (.unexpectedEnd expected c.stopSpan) r' : Outcome n α).Mirrors [g] c := by
  rw [Cursor.items_of_view_finish hview] at h
  exact ⟨rfl, h⟩

theorem stuckAt_token (hitems : c.items = .lexeme l :: r.items)
    (haccepts : g.accepts l.token = none) (hnone : ∀ w, g.otherwise w = none) :
    StuckAt [g] c c.items :=
  stuckAt_here (Goal.move_eq_stuck (refused_of_token hitems haccepts) (hnone _))

theorem stuckAt_end (hview : c.view = .finish) (hnone : ∀ w, g.otherwise w = none) :
    StuckAt [g] c c.items :=
  stuckAt_here (Goal.move_eq_stuck (refused_of_finish hview) (hnone _))

theorem mirrors_take {expected : Expectation} {accept : Token → Option α}
    (hg : ∀ t, g.accepts t = (accept t).map fun _ ↦ []) (hnone : ∀ w, g.otherwise w = none) :
    (c.take expected accept).Mirrors [g] c := by
  rw [Cursor.take]
  split
  · rename_i l r hlt hview
    obtain ⟨hitems, hstop⟩ := items_of_view hview
    split
    · rename_i value haccept
      refine Fulfils.pass hitems hstop ?_ (fulfils_nil r)
      rw [hg, haccept, Option.map_some]
    · rename_i haccept
      refine mirrors_token hitems (stuckAt_token hitems ?_ hnone)
      rw [hg, haccept, Option.map_none]
  · rename_i f r hlt hview
    exact fault_mem_of_view hview
  · rename_i hview
    exact mirrors_end hview (stuckAt_end hview hnone)

theorem mirrors_expect {t : Token} : (c.expect t).Mirrors [.token t] c :=
  (mirrors_take (fun _ ↦ rfl) (fun _ ↦ rfl)).map _

theorem mirrors_expectName : c.expectName.Mirrors [.name] c := by
  refine (mirrors_take (fun t ↦ ?_) (fun _ ↦ rfl)).map _
  cases t <;> rfl

/-- A choice by the next token. -/
theorem mirrors_ifNext {slack : Nat} {accept : Token → Option β}
    {present : β → Lexeme → (rest : Cursor) → rest.length < c.length → Outcome (rest.length + 1) α}
    {absent : Unit → Outcome (c.length + slack) α}
    (hg : ∀ t, g.accepts t = (accept t).map fun _ ↦ goals)
    (hnew : ∀ w, g.otherwise w = some new)
    (hpresent : ∀ value l r hlt, (present value l r hlt).Mirrors goals r)
    (habsent : (absent ()).Mirrors new c) :
    (c.ifNext slack accept present absent).Mirrors [g] c := by
  rw [Cursor.ifNext]
  split
  · rename_i l r hlt hview
    obtain ⟨hitems, hstop⟩ := items_of_view hview
    split
    · rename_i value haccept
      refine ((hpresent value l r hlt).pass hitems hstop ?_).mono _
      rw [hg, haccept, Option.map_some]
    · rename_i haccept
      refine habsent.expand (refused_of_token hitems ?_) (hnew _)
      rw [hg, haccept, Option.map_none]
  · rename_i f r hlt hview
    exact fault_mem_of_view hview
  · rename_i hview
    exact habsent.expand (refused_of_finish hview) (hnew _)

end Tokens

/-! ## Types and expressions -/

theorem mirrors_typeName (c : Cursor) : (typeName c).Mirrors [.type] c := by
  rw [typeName]
  split
  · rename_i f r hlt hview
    exact fault_mem_of_view hview
  · rename_i hview
    exact mirrors_end hview (stuckAt_end hview fun _ ↦ rfl)
  · rename_i l r hlt hview
    obtain ⟨hitems, hstop⟩ := items_of_view hview
    split
    case h_6 htoken =>
      have haccepts : Goal.type.accepts l.token = some [.token (.punct .openBracket), .type,
          .token (.punct .closeBracket)] := by
        rw [htoken]
        rfl
      refine (Mirrors.pass ?_ hitems hstop haccepts).after
      refine mirrors_expect.andThen fun _ c₁ hlt₁ ↦ ?_
      exact ((mirrors_typeName c₁).andThen fun _ c₂ hlt₂ ↦ (mirrors_expect.map _).relax).relax
    case h_7 hint hdouble hbool hstring hvoid harray =>
      refine mirrors_token hitems (stuckAt_token hitems ?_ fun _ ↦ rfl)
      rcases htoken : l.token with _ | _ | _ | _ | word | _ | _
      case keyword => cases word <;> first | rfl | contradiction
      all_goals rfl
    all_goals
      rename_i htoken
      refine Fulfils.pass hitems hstop ?_ (fulfils_nil r)
      rw [htoken]
      rfl
termination_by c.length
decreasing_by all_goals omega

mutual

theorem mirrors_expression (c : Cursor) : (expression c).Mirrors [.expression] c := by
  rw [expression]
  refine Mirrors.replace ?_ (fun _ ↦ rfl) (fun _ ↦ rfl)
  refine (mirrors_binary .or c).andThen fun test c₁ hlt₁ ↦ ?_
  refine mirrors_ifNext (fun _ ↦ rfl) (fun _ ↦ rfl) (fun _ l c₂ hlt₂ ↦ ?_) mirrors_done
  refine ((mirrors_binary .or c₂).andThen fun yes c₃ hlt₃ ↦ ?_).relax
  refine (mirrors_expect.andThen fun _ c₄ hlt₄ ↦ ?_).relax
  exact ((mirrors_expression c₄).map _).relax
termination_by 16 * c.length + 13
decreasing_by all_goals have := Level.rank_le .or; omega

theorem mirrors_binary (level : Level) (c : Cursor) :
    (binary level c).Mirrors [.level level] c := by
  rw [binary]
  refine Mirrors.replace ?_ (fun _ ↦ rfl) (fun _ ↦ rfl)
  exact (mirrors_operand level c).andThen fun left c₁ hlt₁ ↦ mirrors_chain level left c₁
termination_by 16 * c.length + 2 * level.rank + 2
decreasing_by all_goals omega

theorem mirrors_operand : (level : Level) → (c : Cursor) →
    (operand level c).Mirrors [.operand level] c
  | .or, c => by
      rw [operand]
      exact (mirrors_binary .and c).replace (fun _ ↦ rfl) (fun _ ↦ rfl)
  | .and, c => by
      rw [operand]
      exact (mirrors_binary .comparison c).replace (fun _ ↦ rfl) (fun _ ↦ rfl)
  | .comparison, c => by
      rw [operand]
      exact (mirrors_binary .sum c).replace (fun _ ↦ rfl) (fun _ ↦ rfl)
  | .sum, c => by
      rw [operand]
      exact (mirrors_binary .product c).replace (fun _ ↦ rfl) (fun _ ↦ rfl)
  | .product, c => by
      rw [operand]
      exact (mirrors_unary c).replace (fun _ ↦ rfl) (fun _ ↦ rfl)
termination_by level c => 16 * c.length + 2 * level.rank + 1
decreasing_by all_goals simp only [Level.rank]; omega

theorem mirrors_chain (level : Level) (left : Expr) (c : Cursor) :
    (chain level left c).Mirrors [.chain level] c := by
  rw [chain]
  refine mirrors_ifNext (fun _ ↦ rfl) (fun _ ↦ rfl) (fun op l c₁ hlt₁ ↦ ?_) mirrors_done
  refine ((mirrors_operand level c₁).andThen fun right c₂ hlt₂ ↦ ?_).relax
  dsimp only
  split
  · exact mirrors_chain level _ c₂
  · exact mirrors_done
termination_by 16 * c.length
decreasing_by all_goals have := level.rank_le; omega

theorem mirrors_unary (c : Cursor) : (unary c).Mirrors [.unary] c := by
  rw [unary]
  refine mirrors_ifNext (fun _ ↦ rfl) (fun _ ↦ rfl) (fun op l c₁ hlt₁ ↦ ?_) (mirrors_power c)
  exact ((mirrors_unary c₁).map _).relax
termination_by 16 * c.length + 2
decreasing_by all_goals omega

theorem mirrors_power (c : Cursor) :
    (power c).Mirrors [.primary, .suffixes, .exponent] c := by
  rw [power]
  refine (mirrors_primary c).andThen fun base c₁ hlt₁ ↦ ?_
  refine (mirrors_suffixes base c₁).andThen fun whole c₂ hlt₂ ↦ ?_
  refine mirrors_ifNext (fun _ ↦ rfl) (fun _ ↦ rfl) (fun _ l c₃ hlt₃ ↦ ?_) mirrors_done
  exact ((mirrors_unary c₃).map _).relax
termination_by 16 * c.length + 1
decreasing_by all_goals omega

theorem mirrors_suffixes (array : Expr) (c : Cursor) :
    (suffixes array c).Mirrors [.suffixes] c := by
  rw [suffixes]
  refine mirrors_ifNext (fun _ ↦ rfl) (fun _ ↦ rfl) (fun _ l c₁ hlt₁ ↦ ?_) mirrors_done
  refine ((mirrors_expression c₁).andThen fun position c₂ hlt₂ ↦ ?_).relax
  exact (mirrors_expect.andThen fun close c₃ hlt₃ ↦ mirrors_suffixes _ c₃).relax
termination_by 16 * c.length
decreasing_by all_goals omega

theorem mirrors_primary (c : Cursor) : (primary c).Mirrors [.primary] c := by
  rw [primary]
  split
  · rename_i f r hlt hview
    exact fault_mem_of_view hview
  · rename_i hview
    exact mirrors_end hview (stuckAt_end hview fun _ ↦ rfl)
  · rename_i l r hlt hview
    obtain ⟨hitems, hstop⟩ := items_of_view hview
    split
    case h_6 name htoken =>
      have haccepts : Goal.primary.accepts l.token = some [.callTail] := by
        rw [htoken]
        rfl
      refine (Mirrors.pass ?_ hitems hstop haccepts).mono _
      refine mirrors_ifNext (fun _ ↦ rfl) (fun _ ↦ rfl) (fun _ l c₁ hlt₁ ↦ ?_) mirrors_done
      exact ((mirrors_items .closeParen c₁).map _).relax
    case h_7 htoken =>
      have haccepts : Goal.primary.accepts l.token =
          some [.expression, .token (.punct .closeParen)] := by
        rw [htoken]
        rfl
      refine (Mirrors.pass ?_ hitems hstop haccepts).after
      exact (mirrors_expression r).andThen fun inner c₁ hlt₁ ↦ (mirrors_expect.map _).relax
    case h_8 htoken =>
      have haccepts : Goal.primary.accepts l.token = some [.items .closeBracket] := by
        rw [htoken]
        rfl
      exact (((mirrors_items .closeBracket r).map _).pass hitems hstop haccepts).after
    case h_9 hint hdouble hstring hyes hno hident hparen hbracket =>
      refine mirrors_token hitems (stuckAt_token hitems ?_ fun _ ↦ rfl)
      rcases htoken : l.token with value | value | value | name | word | sign | mark
      case int => exact (hint value htoken).elim
      case double => exact (hdouble value htoken).elim
      case string => exact (hstring value htoken).elim
      case ident => exact (hident name htoken).elim
      case keyword => cases word <;> first | rfl | contradiction
      case symbol => rfl
      case punct => cases mark <;> first | rfl | contradiction
    all_goals
      rename_i htoken
      refine Fulfils.pass hitems hstop ?_ (fulfils_nil r)
      rw [htoken]
      rfl
termination_by 16 * c.length
decreasing_by all_goals omega

theorem mirrors_items (close : Punct) (c : Cursor) : (items close c).Mirrors [.items close] c := by
  rw [items]
  refine mirrors_ifNext (fun _ ↦ rfl) (fun _ ↦ rfl) (fun _ l c₁ hlt₁ ↦ mirrors_done) ?_
  refine (mirrors_expression c).andThen fun first c₁ hlt₁ ↦ ?_
  exact ((mirrors_moreItems close c₁).map _).relax
termination_by 16 * c.length + 14
decreasing_by all_goals omega

theorem mirrors_moreItems (close : Punct) (c : Cursor) :
    (moreItems close c).Mirrors [.moreItems close] c := by
  rw [moreItems]
  refine mirrors_ifNext (fun _ ↦ rfl) (fun _ ↦ rfl) (fun _ l c₁ hlt₁ ↦ ?_) (mirrors_expect.map _)
  refine ((mirrors_expression c₁).andThen fun first c₂ hlt₂ ↦ ?_).relax
  exact ((mirrors_moreItems close c₂).map _).relax
termination_by 16 * c.length
decreasing_by all_goals omega

end

/-! ## Statements -/

theorem mirrors_param (c : Cursor) : (param c).Mirrors [.name, .paramType] c := by
  rw [param]
  refine mirrors_expectName.andThen fun name c₁ hlt₁ ↦ ?_
  refine mirrors_ifNext (fun _ ↦ rfl) (fun _ ↦ rfl) (fun _ l c₂ hlt₂ ↦ ?_) mirrors_done
  exact ((mirrors_typeName c₂).map _).relax

theorem mirrors_moreParams (c : Cursor) : (moreParams c).Mirrors [.moreParams] c := by
  rw [moreParams]
  refine Mirrors.replace ?_ (fun _ ↦ rfl) (fun _ ↦ rfl)
  refine (mirrors_param c).append fun first c₁ hlt₁ ↦ ?_
  refine mirrors_ifNext (fun _ ↦ rfl) (fun _ ↦ rfl) (fun _ l c₂ hlt₂ ↦ ?_)
    (mirrors_expect.map _).relax
  exact ((mirrors_moreParams c₂).map _).relax
termination_by c.length
decreasing_by all_goals omega

theorem mirrors_params (c : Cursor) : (params c).Mirrors [.params] c := by
  rw [params]
  exact mirrors_ifNext (fun _ ↦ rfl) (fun _ ↦ rfl) (fun _ l c₁ hlt₁ ↦ mirrors_done)
    (mirrors_moreParams c)

theorem mirrors_declaration (c : Cursor) :
    (declaration c).Mirrors [.type, .name, .token (.symbol .assign), .expression] c := by
  rw [declaration]
  refine (mirrors_typeName c).andThen fun type c₁ hlt₁ ↦ ?_
  refine (mirrors_expectName.andThen fun name c₂ hlt₂ ↦ ?_).relax
  refine (mirrors_expect.andThen fun _ c₃ hlt₃ ↦ ?_).relax
  exact ((mirrors_expression c₃).map _).relax

theorem mirrors_printed (start : Span) (c : Cursor) : (printed start c).Mirrors
    [.token (.punct .openParen), .expression, .token (.punct .closeParen)] c := by
  rw [printed]
  refine mirrors_expect.andThen fun _ c₁ hlt₁ ↦ ?_
  exact ((mirrors_expression c₁).andThen fun argument c₂ hlt₂ ↦ (mirrors_expect.map _).relax).relax

theorem mirrors_returned (start : Span) (c : Cursor) :
    (returned start c).Mirrors [.returned] c := by
  rw [returned]
  split
  · rename_i f r hlt hview
    exact fault_mem_of_view hview
  · rename_i hview
    refine Mirrors.expand mirrors_done (fun _ _ ↦ rfl) ?_
    rw [head?_words_of_finish hview]
    rfl
  · rename_i l r hlt hview
    obtain ⟨hitems, -⟩ := items_of_view hview
    have hotherwise : Goal.otherwise (words c.items).head? .returned =
        some (if (l.token.startsExpression && !l.onNewLine) = true then [.expression] else []) := by
      rw [head?_words hitems]
      rfl
    split
    · rename_i hvalue
      rw [if_pos hvalue] at hotherwise
      refine Mirrors.expand ?_ (fun _ _ ↦ rfl) hotherwise
      exact ((mirrors_expression c).andThen fun value c₁ hlt₁ ↦ mirrors_done).relax
    · rename_i hvalue
      rw [if_neg hvalue] at hotherwise
      exact Mirrors.expand mirrors_done (fun _ _ ↦ rfl) hotherwise

theorem mirrors_assignOrCall (target : Name) (c : Cursor) :
    (assignOrCall target c).Mirrors [.assignOrCall] c := by
  rw [assignOrCall]
  split
  · rename_i f r hlt hview
    exact fault_mem_of_view hview
  · rename_i hview
    exact mirrors_end hview (stuckAt_end hview fun _ ↦ rfl)
  · rename_i l r hlt hview
    obtain ⟨hitems, hstop⟩ := items_of_view hview
    split
    · rename_i htoken
      have haccepts : Goal.assignOrCall.accepts l.token = some [.items .closeParen] := by
        rw [htoken]
        rfl
      exact (((mirrors_items .closeParen r).map _).pass hitems hstop haccepts).after
    · rename_i sign htoken
      split
      · rename_i op hop
        have haccepts : Goal.assignOrCall.accepts l.token = some [.expression] := by
          rw [htoken, Goal.accepts, hop, Option.map_some]
        exact (((mirrors_expression r).map _).pass hitems hstop haccepts).after
      · rename_i hop
        refine mirrors_token hitems (stuckAt_token hitems ?_ fun _ ↦ rfl)
        rw [htoken, Goal.accepts, hop, Option.map_none]
    · rename_i hparen hsign
      refine mirrors_token hitems (stuckAt_token hitems ?_ fun _ ↦ rfl)
      rcases htoken : l.token with value | value | value | name | word | sign | mark
      case symbol => exact (hsign sign htoken).elim
      case punct => cases mark <;> first | rfl | contradiction
      all_goals rfl

/-- A statement that begins like no other must begin with a type. -/
theorem stuckAt_statement {c : Cursor} (h : StuckAt [.type] c c.items)
    (haccepts : ∀ w ∈ (words c.items).head?, Goal.statement.accepts w.1 = none) :
    StuckAt [.statement] c c.items :=
  StuckAt.expand (Goal.move_eq_expand haccepts rfl)
    (h.frame [.name, .token (.symbol .assign), .expression])

theorem stuckAt_statement_token {c r : Cursor} {l : Lexeme}
    (hitems : c.items = .lexeme l :: r.items) (hstatement : Goal.statement.accepts l.token = none)
    (htype : Goal.type.accepts l.token = none) : StuckAt [.statement] c c.items :=
  stuckAt_statement (stuckAt_token hitems htype fun _ ↦ rfl) (refused_of_token hitems hstatement)

theorem stuckAt_statement_end {c : Cursor} (hview : c.view = .finish) :
    StuckAt [.statement] c c.items :=
  stuckAt_statement (stuckAt_end hview fun _ ↦ rfl) (refused_of_finish hview)

mutual

theorem mirrors_statement (c : Cursor) : (statement c).Mirrors [.statement] c := by
  rw [statement]
  split
  · rename_i f r hlt hview
    exact fault_mem_of_view hview
  · rename_i hview
    exact mirrors_end hview (stuckAt_statement_end hview)
  · rename_i l r hlt hview
    obtain ⟨hitems, hstop⟩ := items_of_view hview
    split
    case h_1 htoken =>
      have haccepts : Goal.statement.accepts l.token = some [.name, .token (.punct .openParen),
          .params, .token (.punct .arrow), .type, .block] := by
        rw [htoken]
        rfl
      exact ((mirrors_function r).pass hitems hstop haccepts).after
    case h_2 htoken =>
      have haccepts : Goal.statement.accepts l.token = some [.token (.punct .openParen),
          .expression, .token (.punct .closeParen)] := by
        rw [htoken]
        rfl
      exact ((mirrors_printed l.span r).pass hitems hstop haccepts).after
    case h_3 htoken =>
      have haccepts : Goal.statement.accepts l.token = some [.expression, .block, .branches] := by
        rw [htoken]
        rfl
      refine (Mirrors.pass ?_ hitems hstop haccepts).after
      refine (mirrors_expression r).andThen fun test c₁ hlt₁ ↦ ?_
      refine ((mirrors_block c₁).andThen fun body c₂ hlt₂ ↦ ?_).relax
      exact (mirrors_branches body.2 c₂).map _
    case h_4 htoken =>
      have haccepts : Goal.statement.accepts l.token = some [.expression, .block] := by
        rw [htoken]
        rfl
      refine (Mirrors.pass ?_ hitems hstop haccepts).after
      exact (mirrors_expression r).andThen fun test c₁ hlt₁ ↦ ((mirrors_block c₁).map _).relax
    case h_5 htoken =>
      have haccepts : Goal.statement.accepts l.token = some [.name, .token (.keyword .within),
          .expression, .block] := by
        rw [htoken]
        rfl
      refine (Mirrors.pass ?_ hitems hstop haccepts).after
      refine mirrors_expectName.andThen fun iterator c₁ hlt₁ ↦ ?_
      refine (mirrors_expect.andThen fun _ c₂ hlt₂ ↦ ?_).relax
      refine ((mirrors_expression c₂).andThen fun collection c₃ hlt₃ ↦ ?_).relax
      exact ((mirrors_block c₃).map _).relax
    case h_6 htoken =>
      have haccepts : Goal.statement.accepts l.token = some [.returned] := by
        rw [htoken]
        rfl
      exact ((mirrors_returned l.span r).pass hitems hstop haccepts).mono _
    case h_7 word hfunc hprint hcond hloop heach hret htoken =>
      have haccepts : Goal.statement.accepts l.token = none := by
        rw [htoken]
        cases word <;> first | rfl | contradiction
      split
      · exact (mirrors_declaration c).expand (refused_of_token hitems haccepts) rfl
      · rename_i hword
        refine mirrors_token hitems (stuckAt_statement_token hitems haccepts ?_)
        rw [htoken]
        cases word <;> first | rfl | exact absurd rfl hword
    case h_8 name htoken =>
      have haccepts : Goal.statement.accepts l.token = some [.assignOrCall] := by
        rw [htoken]
        rfl
      exact ((mirrors_assignOrCall ⟨name, l.span⟩ r).pass hitems hstop haccepts).after
    case h_9 hkeyword hident =>
      refine mirrors_token hitems (stuckAt_statement_token hitems ?_ ?_)
      all_goals
        rcases htoken : l.token with value | value | value | name | word | sign | mark
        case keyword => exact (hkeyword word htoken).elim
        case ident => exact (hident name htoken).elim
        all_goals rfl
termination_by 2 * c.length
decreasing_by all_goals omega

theorem mirrors_function (c : Cursor) : (function c).Mirrors
    [.name, .token (.punct .openParen), .params, .token (.punct .arrow), .type, .block] c := by
  rw [function]
  refine mirrors_expectName.andThen fun name c₁ hlt₁ ↦ ?_
  refine (mirrors_expect.andThen fun _ c₂ hlt₂ ↦ ?_).relax
  refine ((mirrors_params c₂).andThen fun inputs c₃ hlt₃ ↦ ?_).relax
  refine (mirrors_expect.andThen fun _ c₄ hlt₄ ↦ ?_).relax
  refine ((mirrors_typeName c₄).andThen fun result c₅ hlt₅ ↦ ?_).relax
  exact ((mirrors_block c₅).map _).relax
termination_by 2 * c.length
decreasing_by all_goals omega

theorem mirrors_block (c : Cursor) : (block c).Mirrors [.block] c := by
  rw [block]
  refine Mirrors.replace ?_ (fun _ ↦ rfl) (fun _ ↦ rfl)
  exact mirrors_expect.andThen fun _ c₁ hlt₁ ↦ (mirrors_blockRest c₁).relax
termination_by 2 * c.length
decreasing_by all_goals omega

theorem mirrors_blockRest (c : Cursor) : (blockRest c).Mirrors [.blockRest] c := by
  rw [blockRest]
  split
  · rename_i f r hlt hview
    exact fault_mem_of_view hview
  · rename_i hview
    refine mirrors_end hview (.expand ?_ ((stuckAt_statement_end hview).frame [.blockRest]))
    rw [head?_words_of_finish hview]
    rfl
  · rename_i l r hlt hview
    obtain ⟨hitems, hstop⟩ := items_of_view hview
    split
    · rename_i htoken
      refine Fulfils.pass hitems hstop ?_ (fulfils_nil r)
      rw [htoken]
      rfl
    · rename_i htoken
      refine Mirrors.expand ?_ (refused_of_token hitems ?_) rfl
      · exact (mirrors_statement c).andThen fun first c₁ hlt₁ ↦ ((mirrors_blockRest c₁).map _).relax
      · rw [Goal.accepts, Cursor.only_eq_none_iff.2 htoken, Option.map_none]
termination_by 2 * c.length + 1
decreasing_by all_goals omega

theorem mirrors_branches (close : Span) (c : Cursor) :
    (branches close c).Mirrors [.branches] c := by
  rw [branches]
  refine mirrors_ifNext (fun _ ↦ rfl) (fun _ ↦ rfl) (fun _ l c₁ hlt₁ ↦ ?_) mirrors_done
  refine mirrors_ifNext (fun _ ↦ rfl) (fun _ ↦ rfl) (fun _ l c₂ hlt₂ ↦ ?_)
    ((mirrors_block c₁).map _).relax
  refine ((mirrors_expression c₂).andThen fun test c₃ hlt₃ ↦ ?_).relax
  refine ((mirrors_block c₃).andThen fun body c₄ hlt₄ ↦ ?_).relax
  exact (mirrors_branches body.2 c₄).map _
termination_by 2 * c.length
decreasing_by all_goals omega

end

theorem mirrors_program (c : Cursor) : (program c).Mirrors [.program] c := by
  rw [program]
  split
  · rename_i f r hlt hview
    exact fault_mem_of_view hview
  · rename_i hview
    refine Mirrors.expand mirrors_done (fun _ _ ↦ rfl) ?_
    rw [head?_words_of_finish hview]
    rfl
  · rename_i l r hlt hview
    obtain ⟨hitems, -⟩ := items_of_view hview
    have hotherwise : Goal.otherwise (words c.items).head? .program =
        some [.statement, .program] := by
      rw [head?_words hitems]
      rfl
    refine (Mirrors.expand ?_ (fun _ _ ↦ rfl) hotherwise).relax
    exact (mirrors_statement c).andThen fun first c₁ hlt₁ ↦ (mirrors_program c₁).map _
termination_by c.length
decreasing_by all_goals omega

end Surface
end Barista
