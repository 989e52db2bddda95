import Barista.Proofs.Surface.Stopping
import Barista.Proofs.Surface.Workload

/-!
# Reading makes progress

A statement, an expression or a type is never empty.  The readers that go round a loop are written
out as loops here: each turn passes a token, or leaves the loop, or fails, so the loop is left after
at most as many turns as there are items ahead, and one more.
-/

namespace Barista
namespace Surface

open Cursor (only)
open Item (words)

/-! ## Loops -/

/-- What a turn of a loop ends with: the state of the next turn, or the value of the loop. -/
inductive Turn (σ α : Type)
  | again (state : σ)
  | leave (value : α)

namespace Outcome

variable {σ α β γ : Type} {n m : Nat} {o : Outcome n (Turn σ α)} {c : Cursor}

/-- The value or the error, and the cursor. -/
def result (o : Outcome n α) : Except SyntaxError α × Cursor := (o.toExcept, o.rest)

/-- A turn passes a token, or leaves the loop, or fails. -/
def Turns (c : Cursor) : Outcome n (Turn σ α) → Prop
  | .ok (.again _) r _ => ∃ ls, ls ≠ [] ∧ c.Reads ls r
  | .ok (.leave _) r _ => ∃ ls, c.Reads ls r
  | .fail e r => ∃ ls c₁, c.Reads ls c₁ ∧ StopsAt c₁ e r

theorem mono_mono {k : Nat} (h : n ≤ m) (h' : m ≤ k) (o : Outcome n α) :
    (o.mono h).mono h' = o.mono (Nat.le_trans h h') := by
  cases o <;> rfl

theorem map_mono (h : n ≤ m) (o : Outcome n α) (f : α → β) :
    (o.mono h).map f = (o.map f).mono h := by
  cases o <;> rfl

theorem map_map (o : Outcome n α) (f : α → β) (g : β → γ) :
    (o.map f).map g = o.map fun a ↦ g (f a) := by
  cases o <;> rfl

theorem result_mono (h : n ≤ m) (o : Outcome n α) : (o.mono h).result = o.result := by
  cases o <;> rfl

/-- What becomes of a turn when `read` does what is left after it. -/
def resume (read : σ → Cursor → Except SyntaxError α × Cursor) :
    Outcome n (Turn σ α) → Except SyntaxError α × Cursor
  | .ok (.again s) r _ => read s r
  | .ok (.leave a) r _ => (.ok a, r)
  | .fail e r => (.error e, r)

end Outcome

open Outcome

theorem length_lt_of_reads {c r : Cursor} {ls : List Lexeme} (h : c.Reads ls r) (hls : ls ≠ []) :
    r.length < c.length := by
  have hitems := (Cursor.items_of_reads h).1
  have hpos := List.length_pos_iff.2 hls
  simp only [Cursor.length, hitems, List.length_append, List.length_map]
  omega

/-- A reader that leaves fewer items has passed a token. -/
theorem ne_nil_of_reads {c r : Cursor} {ls : List Lexeme} (h : c.Reads ls r)
    (hlt : r.length < c.length) : ls ≠ [] := by
  rintro rfl
  cases h
  exact Nat.lt_irrefl _ hlt

/-- A loop is given by its turns. -/
structure Loop (σ α : Type) where
  body : σ → (c : Cursor) → Outcome (c.length + 1) (Turn σ α)
  turns : ∀ s c, (body s c).Turns c

namespace Loop

variable {σ α : Type}

/-- Goes round at most `n` times. -/
def rounds (L : Loop σ α) : Nat → σ → Cursor → Option (Except SyntaxError α × Cursor)
  | 0, _, _ => none
  | n + 1, s, c =>
    match L.body s c with
    | .ok (.again s') r _ => L.rounds n s' r
    | .ok (.leave a) r _ => some (.ok a, r)
    | .fail e r => some (.error e, r)

/-- The reader does what a turn does and then goes on as before. -/
def Unrolls (L : Loop σ α) (read : σ → Cursor → Except SyntaxError α × Cursor) : Prop :=
  ∀ s c, (L.body s c).resume read = read s c

/-- More turns than there are items ahead are enough. -/
theorem rounds_eq {L : Loop σ α} {read : σ → Cursor → Except SyntaxError α × Cursor}
    (h : L.Unrolls read) :
    ∀ (n : Nat) (s : σ) (c : Cursor), c.length < n → L.rounds n s c = some (read s c)
  | 0, s, c, hlt => absurd hlt (Nat.not_lt_zero _)
  | n + 1, s, c, hlt => by
      rw [rounds, ← h s c]
      split
      · rename_i s' r hr hbody
        have hturns := L.turns s c
        rw [hbody] at hturns
        obtain ⟨ls, hls, hreads⟩ := hturns
        have hshorter := length_lt_of_reads hreads hls
        rw [hbody]
        exact rounds_eq h n s' r (by omega)
      · rename_i hbody
        rw [hbody]
        rfl
      · rename_i hbody
        rw [hbody]
        rfl

/-- The same for a reader that the state only adds something to, which is nothing at first. -/
theorem rounds_of_lt (L : Loop σ α) {m : Cursor → Nat} {phrase : σ → (c : Cursor) → Outcome (m c) α}
    {g : σ → α → α} (h : L.Unrolls fun s c ↦ ((phrase s c).map (g s)).result) {s : σ}
    (hg : ∀ b, g s b = b) {n : Nat} {c : Cursor} (hlt : c.length < n) :
    L.rounds n s c = some (phrase s c).result := by
  have hmap : (phrase s c).map (g s) = phrase s c := by
    cases phrase s c <;> simp only [Outcome.map, hg]
  rw [rounds_eq h n s c hlt, hmap]

end Loop

section Turns

variable {σ α β : Type} {n m : Nat} {c : Cursor}

theorem turns_leave {value : α} : (Outcome.done (Turn.leave value : Turn σ α) c).Turns c :=
  ⟨[], .nil c⟩

theorem Outcome.Turns.mono {o : Outcome n (Turn σ α)} (h : o.Turns c) (hle : n ≤ m) :
    (o.mono hle).Turns c := by
  rcases o with ⟨_ | _, _⟩ | _ <;> exact h

theorem turns_fail {e : SyntaxError} {r : Cursor}
    (h : (Outcome.fail e r : Outcome n (Turn σ α)).Ends c) :
    (Outcome.fail e r : Outcome n (Turn σ α)).Turns c :=
  h

/-- A turn that leaves fewer items in any case. -/
theorem Outcome.Ends.turns {o : Outcome c.length (Turn σ α)} (h : o.Ends c) : o.Turns c := by
  cases o with
  | ok turn r hlt =>
      obtain ⟨ls, hreads⟩ := h
      cases turn with
      | again s => exact ⟨ls, ne_nil_of_reads hreads hlt, hreads⟩
      | leave value => exact ⟨ls, hreads⟩
  | fail e r => exact h

theorem turns_ifNext {slack : Nat} {accept : Token → Option β}
    {present : β → Lexeme → (rest : Cursor) → rest.length < c.length →
      Outcome (rest.length + 1) (Turn σ α)}
    {absent : Unit → Outcome (c.length + slack) (Turn σ α)}
    (hpresent : ∀ value l r hlt, (present value l r hlt).Ends r)
    (habsent : (absent ()).Turns c) : (c.ifNext slack accept present absent).Turns c := by
  rw [Cursor.ifNext]
  split
  · rename_i l r hlt hview
    split
    · rename_i value haccept
      have hends := ((hpresent value l r hlt).behind (next_of_lexeme hview)).mono hlt
      have hturns := hends.turns.mono (Nat.le_add_right _ slack)
      rwa [mono_mono] at hturns
    · exact habsent
  · rename_i hview
    exact turns_fail (ends_fault (next_of_fault hview))
  · exact habsent

end Turns

/-! ## The turns of the readers -/

/-- The statements of a program. -/
def programLoop : Loop (List Stmt) (List Stmt) where
  body front c :=
    match c.view with
    | .fault f rest _ => .fail (.lexical f) rest
    | .finish => .done (.leave front) c
    | .lexeme _ _ _ => ((statement c).map fun first ↦ .again (front ++ [first])).relax
  turns front c := by
    split
    · rename_i hview
      exact turns_fail (ends_fault (next_of_fault hview))
    · exact turns_leave
    · exact ((ends_statement c).map _).turns.mono _

/-- The statements of a block up to its closing brace. -/
def blockLoop : Loop (List Stmt) (List Stmt × Span) where
  body front c :=
    match c.view with
    | .fault f rest _ => .fail (.lexical f) rest
    | .finish => .fail (.unexpectedEnd (.token (.punct .closeBrace)) c.stopSpan) c
    | .lexeme l rest h =>
      if l.token = .punct .closeBrace then (Outcome.ok (.leave (front, l.span)) rest h).relax
      else ((statement c).map fun first ↦ .again (front ++ [first])).relax
  turns front c := by
    split
    · rename_i hview
      exact turns_fail (ends_fault (next_of_fault hview))
    · rename_i hview
      exact turns_fail (ends_end (next_of_finish hview))
    · rename_i l r hlt hview
      split
      · exact ⟨[l], .cons (next_of_lexeme hview) (.nil r)⟩
      · exact ((ends_statement c).map _).turns.mono _

/-- The chain with the branches `front` in front of `last`. -/
def chainOf (front : List (Expr × List Stmt)) (last : Chain) : Chain :=
  front.foldr (fun branch rest ↦ .also branch.1 branch.2 rest) last

/-- The branches of a conditional.  The state also tells where the last block ends. -/
def branchLoop : Loop (List (Expr × List Stmt) × Span) (Chain × Span) where
  body state c :=
    c.ifNext 1 (only (.keyword .otherwise))
      (fun _ _ c₁ _ ↦
        c₁.ifNext 1 (only (.keyword .cond))
          (fun _ _ c₂ _ ↦
            ((expression c₂).andThen fun test c₃ _ ↦
              ((block c₃).map fun (body, close) ↦
                .again (state.1 ++ [(test, body)], close)).relax).relax)
          (fun _ ↦ ((block c₁).map fun (body, close) ↦
            .leave (chainOf state.1 (.otherwise body), close)).relax))
      (fun _ ↦ .done (.leave (chainOf state.1 .finish, state.2)) c)
  turns state c := by
    refine turns_ifNext (fun _ l c₁ hlt₁ ↦ ?_) turns_leave
    refine ends_ifNext (fun _ l c₂ hlt₂ ↦ ?_) ((ends_block c₁).map _).relax
    exact ((ends_expression c₂).andThen fun test c₃ hlt₃ ↦ ((ends_block c₃).map _).relax).relax

/-- The parameters of a function. -/
def paramLoop : Loop (List Param) (List Param) where
  body front c :=
    ((param c).andThen fun first c₁ _ ↦
      c₁.ifNext 1 (only (.punct .comma))
        (fun _ _ c₂ _ ↦ .done (.again (front ++ [first])) c₂)
        (fun _ ↦
          ((c₁.expect (.punct .closeParen)).map fun _ ↦ .leave (front ++ [first])).relax)).relax
  turns front c := by
    refine Turns.mono (Ends.turns ?_) _
    refine (ends_param c).andThen fun first c₁ hlt₁ ↦ ?_
    exact ends_ifNext (fun _ l c₂ hlt₂ ↦ ends_done) (ends_expect.map _).relax

/-- The expressions of a list behind the first. -/
def itemLoop (close : Punct) : Loop (List Expr) (List Expr × Span) where
  body front c :=
    c.ifNext 1 (only (.punct .comma))
      (fun _ _ c₁ _ ↦ ((expression c₁).map fun item ↦ .again (front ++ [item])).relax)
      (fun _ ↦ ((c.expect (.punct close)).map fun span ↦ .leave (front, span)).relax)
  turns front c := by
    refine turns_ifNext (fun _ l c₁ hlt₁ ↦ ?_) ((ends_expect.map _).turns.mono _)
    exact ((ends_expression c₁).map _).relax

/-- The indices behind an expression. -/
def suffixLoop : Loop Expr Expr where
  body array c :=
    c.ifNext 1 (only (.punct .openBracket))
      (fun _ _ c₁ _ ↦
        ((expression c₁).andThen fun position c₂ _ ↦
          ((c₂.expect (.punct .closeBracket)).map fun close ↦
            .again (.index array position (array.span.merge close))).relax).relax)
      (fun _ ↦ .done (.leave array) c)
  turns array c := by
    refine turns_ifNext (fun _ l c₁ hlt₁ ↦ ?_) turns_leave
    exact ((ends_expression c₁).andThen fun position c₂ hlt₂ ↦ (ends_expect.map _).relax).relax

/-- The operators of a level.  A level that does not repeat is left behind the first. -/
def operatorLoop (level : Level) : Loop Expr Expr where
  body left c :=
    c.ifNext 1 level.operator?
      (fun op _ c₁ _ ↦
        ((operand level c₁).map fun right ↦
          let whole := .binary op left right (left.span.merge right.span)
          if level.repeats then .again whole else .leave whole).relax)
      (fun _ ↦ .done (.leave left) c)
  turns left c := by
    refine turns_ifNext (fun op l c₁ hlt₁ ↦ ?_) turns_leave
    exact ((ends_operand level c₁).map _).relax

/-! ## The readers are their loops -/

namespace Outcome

variable {σ α β γ : Type} {n m k j : Nat} {read : σ → Cursor → Except SyntaxError α × Cursor}
  {g : β → α} {c : Cursor}

/-- The turn and what `read` makes of it give the value `g` of the phrase. -/
def Completes (read : σ → Cursor → Except SyntaxError α × Cursor) (g : β → α)
    (turn : Outcome n (Turn σ α)) (phrase : Outcome m β) : Prop :=
  turn.resume read = (phrase.map g).result

theorem Completes.mono {turn : Outcome n (Turn σ α)} {phrase : Outcome m β}
    (h : Completes read g turn phrase) (hk : n ≤ k) (hj : m ≤ j) :
    Completes read g (turn.mono hk) (phrase.mono hj) := by
  rcases turn with ⟨_ | _, _, _⟩ | _ <;> rcases phrase with ⟨_, _, _⟩ | _ <;> exact h

theorem Completes.monoTurn {turn : Outcome n (Turn σ α)} {phrase : Outcome m β}
    (h : Completes read g turn phrase) (hk : n ≤ k) : Completes read g (turn.mono hk) phrase := by
  rcases turn with ⟨_ | _, _, _⟩ | _ <;> exact h

theorem completes_fail {e : SyntaxError} {r : Cursor} :
    Completes read g (.fail e r : Outcome n (Turn σ α)) (.fail e r : Outcome m β) :=
  rfl

/-- The turn leaves the loop where the phrase ends. -/
theorem completes_leave {o : Outcome n γ} {v : γ → α} {w : γ → β} (h : ∀ a, v a = g (w a)) :
    Completes read g (o.map fun a ↦ Turn.leave (v a)) (o.map w) := by
  cases o with
  | ok value r hlt => simp only [Completes, resume, Outcome.map, result, toExcept, rest, h]
  | fail e r => rfl

theorem completes_found {a : α} {b : β} {hn : c.length < n} {hm : c.length < m} (h : a = g b) :
    Completes read g (.ok (.leave a) c hn) (.ok b c hm) := by
  subst h
  rfl

theorem completes_done {a : α} {b : β} (h : a = g b) :
    Completes read g (.done (.leave a) c) (.done b c) :=
  completes_found h

/-- The turn ends in front of the rest of the phrase. -/
theorem completes_again {s : σ} {phrase : Outcome m β} (h : read s c = (phrase.map g).result) :
    Completes read g (.done (.again s) c) phrase :=
  h

theorem completes_map {o : Outcome n γ} {t : γ → Turn σ α}
    {f : γ → (rest : Cursor) → rest.length < n → Outcome (rest.length + 1) β}
    (h : ∀ a r hlt, Completes read g (.done (t a) r) (f a r hlt)) :
    Completes read g (o.map t) (o.andThen f) := by
  cases o with
  | ok value r hlt => exact (h value r hlt).mono hlt hlt
  | fail e r => rfl

theorem completes_andThen {o : Outcome n γ}
    {f : γ → (rest : Cursor) → rest.length < n → Outcome (rest.length + 1) (Turn σ α)}
    {f' : γ → (rest : Cursor) → rest.length < n → Outcome (rest.length + 1) β}
    (h : ∀ a r hlt, Completes read g (f a r hlt) (f' a r hlt)) :
    Completes read g (o.andThen f) (o.andThen f') := by
  cases o with
  | ok value r hlt => exact (h value r hlt).mono hlt hlt
  | fail e r => rfl

theorem completes_ifNext {slack slack' : Nat} {accept : Token → Option γ}
    {present : γ → Lexeme → (rest : Cursor) → rest.length < c.length →
      Outcome (rest.length + 1) (Turn σ α)}
    {present' : γ → Lexeme → (rest : Cursor) → rest.length < c.length →
      Outcome (rest.length + 1) β}
    {absent : Unit → Outcome (c.length + slack) (Turn σ α)}
    {absent' : Unit → Outcome (c.length + slack') β}
    (hpresent : ∀ value l r hlt, Completes read g (present value l r hlt) (present' value l r hlt))
    (habsent : Completes read g (absent ()) (absent' ())) :
    Completes read g (c.ifNext slack accept present absent)
      (c.ifNext slack' accept present' absent') := by
  rw [Cursor.ifNext, Cursor.ifNext]
  split
  · split
    · exact (hpresent _ _ _ _).mono _ _
    · exact habsent
  · exact completes_fail
  · exact habsent

end Outcome

theorem programLoop_unrolls :
    programLoop.Unrolls fun front c ↦ ((program c).map (front ++ ·)).result := by
  intro front c
  change Completes _ (front ++ ·) (programLoop.body front c) (program c)
  rw [program]
  dsimp only [programLoop]
  cases c.view with
  | fault f rest h => exact completes_fail
  | finish => exact completes_done (List.append_nil front).symm
  | lexeme l rest h =>
      refine Completes.mono (completes_map fun first c₁ hlt₁ ↦ completes_again ?_) _ _
      simp only [map_map, List.append_assoc, List.singleton_append]

theorem blockLoop_unrolls : blockLoop.Unrolls fun front c ↦
    ((blockRest c).map fun (others, close) ↦ (front ++ others, close)).result := by
  intro front c
  change Completes _ (fun (others, close) ↦ (front ++ others, close)) (blockLoop.body front c)
    (blockRest c)
  rw [blockRest]
  dsimp only [blockLoop]
  cases c.view with
  | fault f rest h => exact completes_fail
  | finish => exact completes_fail
  | lexeme l rest h =>
      dsimp only
      split
      · apply Completes.monoTurn
        apply completes_found
        rw [List.append_nil]
      · refine Completes.monoTurn (completes_map fun first c₁ hlt₁ ↦ completes_again ?_) _
        simp only [relax, map_mono, result_mono, map_map, List.append_assoc, List.singleton_append]

theorem branchLoop_unrolls : branchLoop.Unrolls fun state c ↦
    ((branches state.2 c).map fun (others, last) ↦ (chainOf state.1 others, last)).result := by
  intro state c
  change Completes _ (fun (others, last) ↦ (chainOf state.1 others, last)) (branchLoop.body state c)
    (branches state.2 c)
  rw [branches]
  dsimp only [branchLoop]
  refine completes_ifNext (fun _ l c₁ hlt₁ ↦ ?_) (completes_done rfl)
  refine completes_ifNext (fun _ l c₂ hlt₂ ↦ ?_) ?_
  · refine (completes_andThen fun test c₃ hlt₃ ↦ ?_).mono _ _
    refine Completes.mono (completes_map fun body c₄ hlt₄ ↦ completes_again ?_) _ _
    simp only [map_map, chainOf, List.foldr_append, List.foldr_cons, List.foldr_nil]
  · apply Completes.mono
    apply completes_leave
    intro body
    rfl

theorem paramLoop_unrolls :
    paramLoop.Unrolls fun front c ↦ ((moreParams c).map (front ++ ·)).result := by
  intro front c
  change Completes _ (front ++ ·) (paramLoop.body front c) (moreParams c)
  rw [moreParams]
  dsimp only [paramLoop]
  refine (completes_andThen fun first c₁ hlt₁ ↦ ?_).monoTurn _
  refine completes_ifNext (fun _ l c₂ hlt₂ ↦ completes_again ?_) ?_
  · simp only [relax, map_mono, result_mono, map_map, List.append_assoc, List.singleton_append]
  · apply Completes.mono
    apply completes_leave
    intro close
    rfl

theorem itemLoop_unrolls (close : Punct) : (itemLoop close).Unrolls fun front c ↦
    ((moreItems close c).map fun (others, span) ↦ (front ++ others, span)).result := by
  intro front c
  change Completes _ (fun (others, span) ↦ (front ++ others, span)) ((itemLoop close).body front c)
    (moreItems close c)
  rw [moreItems]
  dsimp only [itemLoop]
  refine completes_ifNext (fun _ l c₁ hlt₁ ↦ ?_) ?_
  · refine Completes.mono (completes_map fun first c₂ hlt₂ ↦ completes_again ?_) _ _
    simp only [relax, map_mono, result_mono, map_map, List.append_assoc, List.singleton_append]
  · apply Completes.monoTurn
    apply completes_leave
    intro span
    rw [List.append_nil]

theorem suffixLoop_unrolls :
    suffixLoop.Unrolls fun array c ↦ ((suffixes array c).map id).result := by
  intro array c
  change Completes _ id (suffixLoop.body array c) (suffixes array c)
  rw [suffixes]
  dsimp only [suffixLoop]
  refine completes_ifNext (fun _ l c₁ hlt₁ ↦ ?_) (completes_done rfl)
  refine (completes_andThen fun position c₂ hlt₂ ↦ ?_).mono _ _
  exact Completes.mono (completes_map fun close c₃ hlt₃ ↦ completes_again rfl) _ _

theorem operatorLoop_unrolls (level : Level) :
    (operatorLoop level).Unrolls fun left c ↦ ((chain level left c).map id).result := by
  intro left c
  change Completes _ id ((operatorLoop level).body left c) (chain level left c)
  rw [chain]
  dsimp only [operatorLoop]
  refine completes_ifNext (fun op l c₁ hlt₁ ↦ ?_) (completes_done rfl)
  refine Completes.mono (completes_map fun right c₂ hlt₂ ↦ ?_) _ _
  split
  · exact completes_again rfl
  · exact completes_done rfl

/-! ## All readers -/

/-- `Routine goals c o`: a reader for the goals gives `o` when it is called at `c`. -/
inductive Routine : List Goal → Cursor → {n : Nat} → {α : Type} → Outcome n α → Prop
  | typeName (c : Cursor) : Routine [.type] c (typeName c)
  | expression (c : Cursor) : Routine [.expression] c (expression c)
  | binary (level : Level) (c : Cursor) : Routine [.level level] c (binary level c)
  | operand (level : Level) (c : Cursor) : Routine [.operand level] c (operand level c)
  | chain (level : Level) (left : Expr) (c : Cursor) :
      Routine [.chain level] c (chain level left c)
  | unary (c : Cursor) : Routine [.unary] c (unary c)
  | power (c : Cursor) : Routine [.primary, .suffixes, .exponent] c (power c)
  | suffixes (array : Expr) (c : Cursor) : Routine [.suffixes] c (suffixes array c)
  | primary (c : Cursor) : Routine [.primary] c (primary c)
  | items (close : Punct) (c : Cursor) : Routine [.items close] c (items close c)
  | moreItems (close : Punct) (c : Cursor) : Routine [.moreItems close] c (moreItems close c)
  | param (c : Cursor) : Routine [.name, .paramType] c (param c)
  | moreParams (c : Cursor) : Routine [.moreParams] c (moreParams c)
  | params (c : Cursor) : Routine [.params] c (params c)
  | declaration (c : Cursor) :
      Routine [.type, .name, .token (.symbol .assign), .expression] c (declaration c)
  | printed (start : Span) (c : Cursor) :
      Routine [.token (.punct .openParen), .expression, .token (.punct .closeParen)] c
        (printed start c)
  | returned (start : Span) (c : Cursor) : Routine [.returned] c (returned start c)
  | assignOrCall (target : Name) (c : Cursor) :
      Routine [.assignOrCall] c (assignOrCall target c)
  | statement (c : Cursor) : Routine [.statement] c (statement c)
  | function (c : Cursor) :
      Routine [.name, .token (.punct .openParen), .params, .token (.punct .arrow), .type, .block] c
        (function c)
  | block (c : Cursor) : Routine [.block] c (block c)
  | blockRest (c : Cursor) : Routine [.blockRest] c (blockRest c)
  | branches (close : Span) (c : Cursor) : Routine [.branches] c (branches close c)
  | program (c : Cursor) : Routine [.program] c (program c)

namespace Routine

variable {goals : List Goal} {c : Cursor} {n : Nat} {α : Type} {o : Outcome n α}

theorem ends (h : Routine goals c o) : o.Ends c := by
  cases h with
  | typeName => exact ends_typeName c
  | expression => exact ends_expression c
  | binary level => exact ends_binary level c
  | operand level => exact ends_operand level c
  | chain level left => exact ends_chain level left c
  | unary => exact ends_unary c
  | power => exact ends_power c
  | suffixes array => exact ends_suffixes array c
  | primary => exact ends_primary c
  | items close => exact ends_items close c
  | moreItems close => exact ends_moreItems close c
  | param => exact ends_param c
  | moreParams => exact ends_moreParams c
  | params => exact ends_params c
  | declaration => exact ends_declaration c
  | printed start => exact ends_printed start c
  | returned start => exact ends_returned start c
  | assignOrCall target => exact ends_assignOrCall target c
  | statement => exact ends_statement c
  | function => exact ends_function c
  | block => exact ends_block c
  | blockRest => exact ends_blockRest c
  | branches close => exact ends_branches close c
  | program => exact ends_program c

theorem mirrors (h : Routine goals c o) : o.Mirrors goals c := by
  cases h with
  | typeName => exact mirrors_typeName c
  | expression => exact mirrors_expression c
  | binary level => exact mirrors_binary level c
  | operand level => exact mirrors_operand level c
  | chain level left => exact mirrors_chain level left c
  | unary => exact mirrors_unary c
  | power => exact mirrors_power c
  | suffixes array => exact mirrors_suffixes array c
  | primary => exact mirrors_primary c
  | items close => exact mirrors_items close c
  | moreItems close => exact mirrors_moreItems close c
  | param => exact mirrors_param c
  | moreParams => exact mirrors_moreParams c
  | params => exact mirrors_params c
  | declaration => exact mirrors_declaration c
  | printed start => exact mirrors_printed start c
  | returned start => exact mirrors_returned start c
  | assignOrCall target => exact mirrors_assignOrCall target c
  | statement => exact mirrors_statement c
  | function => exact mirrors_function c
  | block => exact mirrors_block c
  | blockRest => exact mirrors_blockRest c
  | branches close => exact mirrors_branches close c
  | program => exact mirrors_program c

end Routine

/-- Reading fails or passes at least one token. -/
def Outcome.Advances {n : Nat} {α : Type} (c : Cursor) : Outcome n α → Prop
  | .ok _ r _ => ∃ ls, ls ≠ [] ∧ c.Reads ls r
  | .fail e r => ∃ ls c₁, c.Reads ls c₁ ∧ StopsAt c₁ e r

theorem Outcome.Ends.advances {c : Cursor} {α : Type} {o : Outcome c.length α} (h : o.Ends c) :
    o.Advances c := by
  cases o with
  | ok value r hlt =>
      obtain ⟨ls, hreads⟩ := h
      exact ⟨ls, ne_nil_of_reads hreads hlt, hreads⟩
  | fail e r => exact h

/-- From the end of the text a reader does not move. -/
theorem Outcome.Ends.rest_eq {c : Cursor} {n : Nat} {α : Type} {o : Outcome n α} (h : o.Ends c)
    (hend : c.next = (.ok none, c)) : o.rest = c := by
  have hstay {ls : List Lexeme} {r : Cursor} (hreads : c.Reads ls r) : r = c := by
    cases hreads with
    | nil => rfl
    | cons hnext _ =>
        rw [hend] at hnext
        cases hnext
  cases o with
  | ok value r hlt =>
      obtain ⟨ls, hreads⟩ := h
      exact hstay hreads
  | fail e r =>
      obtain ⟨ls, c₁, hreads, hstops⟩ := h
      obtain rfl := hstay hreads
      cases e with
      | lexical f => cases hend.symm.trans hstops
      | unexpectedToken expected t s =>
          obtain ⟨l, r', hnext, -⟩ := hstops
          cases hend.symm.trans hnext
      | unexpectedEnd expected s => exact hstops.2.2

/-! ## Progress -/

/-- Reading always makes progress and comes to an end.  A reader passes lexemes only and stops where
it fails, and from the end of the text it does not move; a statement, an expression and a type pass
at least one token.  A turn of a loop passes a token, leaves the loop or fails, and the readers that
go round a loop are done after as many turns as there are items ahead and one more.  A run over the
table, which the readers follow, makes no more moves than its work, whatever goals it begins with;
on a text it ends with the verdict of the parser after a number of moves that is linear in the
length of the text. -/
theorem reading_progresses :
    (∀ {goals : List Goal} {c : Cursor} {n : Nat} {α : Type} {o : Outcome n α},
      Routine goals c o → o.Ends c ∧ o.Mirrors goals c ∧
        (c.next = (.ok none, c) → o.rest = c)) ∧
    (∀ c, (statement c).Advances c ∧ (expression c).Advances c ∧ (typeName c).Advances c) ∧
    (∀ {σ α : Type} (L : Loop σ α) (s : σ) (c : Cursor), (L.body s c).Turns c) ∧
    (∀ (n : Nat) (c : Cursor), c.length < n →
      programLoop.rounds n [] c = some (program c).result ∧
      blockLoop.rounds n [] c = some (blockRest c).result ∧
      (∀ close, branchLoop.rounds n ([], close) c = some (branches close c).result) ∧
      paramLoop.rounds n [] c = some (moreParams c).result ∧
      (∀ close, (itemLoop close).rounds n [] c = some (moreItems close c).result) ∧
      (∀ array, suffixLoop.rounds n array c = some (suffixes array c).result) ∧
      ∀ level left, (operatorLoop level).rounds n left c = some (chain level left c).result) ∧
    (∀ {k : Nat} {s s' : Config}, Steps k s s' → k ≤ work s) ∧
    ∀ source : String,
      (programLoop.rounds (source.length + 1) [] (Cursor.ofSource source)).map Prod.fst =
        some (parse source) ∧
      ∃ k s, Steps k ([.program], words (Item.ofSource source)) s ∧ advance? s = none ∧
        k ≤ 28 * source.length + 7 ∧
        ((∃ f, parse source = .error (.lexical f)) ∨
          ((∃ statements, parse source = .ok statements) ↔ s.1 = [])) := by
  refine ⟨?_, ?_, ?_, ?_, ?_, ?_⟩
  · intro goals c n α o h
    exact ⟨h.ends, h.mirrors, fun hend ↦ h.ends.rest_eq hend⟩
  · intro c
    exact ⟨(ends_statement c).advances, (ends_expression c).advances, (ends_typeName c).advances⟩
  · intro σ α L s c
    exact L.turns s c
  · intro n c hlt
    refine ⟨?_, ?_, fun close ↦ ?_, ?_, fun close ↦ ?_, fun array ↦ ?_, fun level left ↦ ?_⟩
    · exact programLoop.rounds_of_lt programLoop_unrolls (fun _ ↦ rfl) hlt
    · exact blockLoop.rounds_of_lt blockLoop_unrolls (fun _ ↦ rfl) hlt
    · exact branchLoop.rounds_of_lt branchLoop_unrolls (fun _ ↦ rfl) hlt
    · exact paramLoop.rounds_of_lt paramLoop_unrolls (fun _ ↦ rfl) hlt
    · exact (itemLoop close).rounds_of_lt (itemLoop_unrolls close) (fun _ ↦ rfl) hlt
    · exact suffixLoop.rounds_of_lt suffixLoop_unrolls (fun _ ↦ rfl) hlt
    · exact (operatorLoop level).rounds_of_lt (operatorLoop_unrolls level) (fun _ ↦ rfl) hlt
  · intro k s s' h
    exact Nat.le_trans (Nat.le_add_right k _) h.le_work
  · intro source
    refine ⟨?_, exists_halted_source source⟩
    have hlength : (Cursor.ofSource source).length < source.length + 1 := by
      have hitems := Item.length_scan_le 0 false source.toList
      rw [String.length_toList] at hitems
      exact Nat.lt_succ_of_le hitems
    rw [programLoop.rounds_of_lt programLoop_unrolls (fun _ ↦ rfl) hlength]
    rfl

/-- A block that is never closed is given up at the end of the text. -/
theorem reading_progresses_unclosed :
    let source := "while x \x7b print(x)"
    (parse source).toOption.isNone = true ∧
      (programLoop.rounds (source.length + 1) [] (Cursor.ofSource source)).map Prod.fst =
        some (parse source) ∧
      ∃ k s, Steps k ([.program], words (Item.ofSource source)) s ∧ advance? s = none ∧
        k ≤ 28 * source.length + 7 := by
  intro source
  obtain ⟨-, -, -, -, -, hsources⟩ := reading_progresses
  obtain ⟨hrounds, k, s, hsteps, hhalted, hle, -⟩ := hsources source
  exact ⟨by decide +kernel, hrounds, k, s, hsteps, hhalted, hle⟩

end Surface
end Barista
