import Barista.Proofs.Surface.Descent

/-!
# Reading takes linear time

A run over the table makes one move after the other.  Each word that is passed pays for the moves
until the next one is: a goal gives way to goals of a smaller height in front of the same word, and
goals that are left out have been put on the stack before.  So a run ends, wherever it begins and
whatever the words are, and its length is bounded by the number of the words.
-/

namespace Barista

namespace Item

/-- Every item takes at least one character. -/
theorem length_scan_le (start : Nat) (onNewLine : Bool) (cs : List Char) :
    (scan start onNewLine 0 cs).length ≤ cs.length := by
  induction start, onNewLine, cs using scan_induction with
  | nil => simp [scan]
  | cons start onNewLine c cs ih =>
      have hbehind := Munch.length_behind_lt c cs
      have hpiece : (ofPiece start onNewLine (Munch.front c cs) (munch c cs).1).length ≤ 1 := by
        cases (munch c cs).1 <;> simp [ofPiece]
      rw [scan_cons, List.length_append]
      omega

theorem length_words_le (items : List Item) : (words items).length ≤ items.length := by
  induction items with
  | nil => simp [words, lexemes]
  | cons item items ih =>
      cases item with
      | lexeme l => simpa [words, lexemes] using ih
      | fault f => simp [words, lexemes]

end Item

namespace Surface

open Item (words)

/-- The goals that are left and the words ahead. -/
abbrev Config := List Goal × List Word

def advance? : Config → Option Config
  | ([], _) => none
  | (g :: goals, ws) =>
    match g.move ws.head? with
    | .expand new => some (new ++ goals, ws)
    | .pass new => some (new ++ goals, ws.tail)
    | .stuck => none

/-! ## The work that is left -/

namespace Goal

/-- What the goals that take the place of a goal cost: their number, and the height of the first. -/
def height : Goal → Nat
  | unary | moreParams => 3
  | operand l => 3 * l.rank + 1
  | level l => 3 * l.rank + 3
  | expression => 20
  | items _ => 22
  | returned => 21
  | statement | params => 4
  | block => 2
  | blockRest | program => 6
  | afterElse => 3
  | moreItems _ | paramsTail => 1
  | _ => 0

variable {g first : Goal} {new : List Goal} {ahead : Option Word}

theorem height_le (g : Goal) : g.height ≤ 22 := by
  cases g with
  | level l | operand l =>
      have hrank := l.rank_le
      simp only [height]
      omega
  | _ => simp [height]

theorem height_operand (l : Level) :
    (l.tighter?.elim unary level).height + 1 ≤ (operand l).height := by
  cases l <;> decide

theorem height_otherwise (h : g.otherwise ahead = some (first :: new)) :
    first.height + (new.length + 1) ≤ g.height := by
  cases g with
  | operand l =>
      cases h
      exact height_operand l
  | level l =>
      cases h
      simp [height]
  | returned | program =>
      simp only [otherwise, Option.some.injEq] at h
      split at h <;> cases h
      simp [height]
  | _ =>
      cases h <;> simp [height, Level.rank]

/-- What takes the place of a goal does not begin with a goal that may be left out. -/
theorem otherwise_first (h : g.otherwise ahead = some (first :: new)) :
    ∀ ahead', first.move ahead' ≠ .expand [] := by
  have hfirst : ∀ ahead', first.otherwise ahead' ≠ some [] := by
    cases g with
    | operand l => cases l <;> cases h <;> simp [otherwise, Level.tighter?]
    | returned | program =>
        simp only [otherwise, Option.some.injEq] at h
        split at h <;> cases h
        simp [otherwise]
    | _ => cases h <;> simp [otherwise]
  intro ahead' hmove
  exact hfirst ahead' (otherwise_of_move hmove)

theorem length_accepts {t : Token} (h : g.accepts t = some new) : new.length ≤ 6 := by
  cases g with
  | expression | level _ | operand _ | moreParams | returned | block | program => cases h
  | chain l =>
      obtain ⟨_, _, rfl⟩ := Option.map_eq_some_iff.1 h
      split <;> simp
  | name | type | primary | statement | assignOrCall =>
      simp only [accepts] at h
      split at h
      all_goals first
        | cases h; simp
        | obtain ⟨_, _, rfl⟩ := Option.map_eq_some_iff.1 h; simp
        | cases h
  | _ =>
      obtain ⟨_, _, rfl⟩ := Option.map_eq_some_iff.1 h
      simp

end Goal

/-- The height of the first goal that is not left out. -/
def load (ahead : Option Word) : List Goal → Nat
  | [] => 0
  | g :: goals => if g.move ahead = .expand [] then load ahead goals else g.height

theorem load_le (ahead : Option Word) (goals : List Goal) : load ahead goals ≤ 22 := by
  induction goals with
  | nil => simp [load]
  | cons g goals ih =>
      simp only [load]
      split
      · exact ih
      · exact g.height_le

/-- A bound for the number of moves that are left. -/
def work (s : Config) : Nat :=
  28 * s.2.length + s.1.length + load s.2.head? s.1

theorem work_lt {s s' : Config} (h : advance? s = some s') : work s' < work s := by
  obtain ⟨_ | ⟨g, goals⟩, ws⟩ := s
  · cases h
  · simp only [advance?] at h
    split at h
    · rename_i new hmove
      cases h
      cases new with
      | nil => simp [work, load, hmove]
      | cons first new =>
          have hheight := Goal.height_otherwise (Goal.otherwise_of_move hmove)
          have hfirst := Goal.otherwise_first (Goal.otherwise_of_move hmove) ws.head?
          simp only [work, List.cons_append, load, if_neg hfirst, hmove, Move.expand.injEq,
            List.cons_ne_nil, if_false, List.length_cons, List.length_append]
          omega
    · rename_i new hmove
      cases h
      rcases g.move_cases ws.head? with ⟨t, b, new', hahead, haccepts, hpass⟩ | ⟨-, hother⟩
      · cases hpass.symm.trans hmove
        obtain ⟨ws', rfl⟩ := List.head?_eq_some_iff.1 hahead
        have hnew := Goal.length_accepts haccepts
        have hload := load_le ws'.head? (new ++ goals)
        simp only [work, List.tail_cons, List.length_cons, List.length_append]
        omega
      · rw [hother] at hmove
        cases hgoals : g.otherwise ws.head? <;> rw [hgoals] at hmove <;> cases hmove
    · cases h

/-! ## Sequences of moves -/

/-- `Steps k s s'`: with `k` moves `s` becomes `s'`. -/
inductive Steps : Nat → Config → Config → Prop
  | refl (s : Config) : Steps 0 s s
  | step {k : Nat} {s s' s'' : Config} (h : advance? s = some s') (hsteps : Steps k s' s'') :
      Steps (k + 1) s s''

namespace Steps

variable {k : Nat} {s s' s'' : Config}

theorem le_work (h : Steps k s s') : k + work s' ≤ work s := by
  induction h with
  | refl s => simp
  | step hadvance _ ih =>
      have hlt := work_lt hadvance
      omega

/-- Where no move is left, all moves from a configuration have led to. -/
theorem eq_of_halted {j : Nat} (h : Steps k s s') (hhalted : advance? s' = none)
    (h' : Steps j s s'') (hhalted' : advance? s'' = none) : s' = s'' := by
  induction h generalizing j with
  | refl s =>
      cases h' with
      | refl => rfl
      | step hadvance _ => cases hhalted.symm.trans hadvance
  | step hadvance _ ih =>
      cases h' with
      | refl => cases hhalted'.symm.trans hadvance
      | step hadvance' h' =>
          cases hadvance.symm.trans hadvance'
          exact ih hhalted h'

end Steps

/-- No configuration moves for ever. -/
theorem exists_halted (s : Config) : ∃ k s', Steps k s s' ∧ advance? s' = none := by
  cases h : advance? s with
  | none => exact ⟨0, s, .refl s, h⟩
  | some next =>
      have hlt := work_lt h
      obtain ⟨k, s', hsteps, hhalted⟩ := exists_halted next
      exact ⟨k + 1, s', .step h hsteps, hhalted⟩
termination_by work s

theorem Runs.steps {goals goals' : List Goal} {ws ys : List Word} (h : Runs goals ws ys goals') :
    ∃ k, Steps k (goals, ws ++ ys) (goals', ys) := by
  induction h with
  | nil => exact ⟨0, .refl _⟩
  | expand hmove _ ih =>
      obtain ⟨k, hsteps⟩ := ih
      refine ⟨k + 1, .step ?_ hsteps⟩
      simp only [advance?, hmove]
  | @pass g new goals goals' w ws ys hmove _ ih =>
      obtain ⟨k, hsteps⟩ := ih
      refine ⟨k + 1, .step ?_ hsteps⟩
      simp only [advance?, List.cons_append, List.head?_cons, hmove, List.tail_cons]

theorem Leads.steps {goals stack : List Goal} {c : Cursor} {rest : List Item}
    (h : Leads goals c rest stack) :
    ∃ k, Steps k (goals, words c.items) (stack, words rest) := by
  obtain ⟨ls, hitems, hruns⟩ := h
  rw [hitems, Item.words_append]
  exact hruns.steps

/-- A run that is stuck has no move left. -/
theorem StuckAt.steps {goals : List Goal} {c : Cursor} {rest : List Item}
    (h : StuckAt goals c rest) :
    ∃ k g more, Steps k (goals, words c.items) (g :: more, words rest) ∧
      advance? (g :: more, words rest) = none := by
  obtain ⟨g, more, hleads, hstuck⟩ := h
  obtain ⟨k, hsteps⟩ := hleads.steps
  refine ⟨k, g, more, hsteps, ?_⟩
  simp only [advance?, hstuck]

/-! ## Runs over a whole text -/

/-- The run over a text ends after a number of moves that is linear in its length.  It has emptied
the stack if and only if the text is a program, unless a fault has stopped reading before. -/
theorem exists_halted_source (source : String) :
    ∃ k s, Steps k ([.program], words (Item.ofSource source)) s ∧ advance? s = none ∧
      k ≤ 28 * source.length + 7 ∧
      ((∃ f, parse source = .error (.lexical f)) ∨
        ((∃ statements, parse source = .ok statements) ↔ s.1 = [])) := by
  obtain ⟨k, s, hsteps, hhalted⟩ := exists_halted ([.program], words (Item.ofSource source))
  refine ⟨k, s, hsteps, hhalted, ?_, ?_⟩
  · have hwork := hsteps.le_work
    have hwords := Item.length_words_le (Item.ofSource source)
    have hitems := Item.length_scan_le 0 false source.toList
    have hload : load (words (Item.ofSource source)).head? [.program] ≤ 6 := by
      simp only [load]
      split <;> simp [Goal.height]
    simp only [work, List.length_cons, List.length_nil] at hwork
    rw [String.length_toList] at hitems
    rw [Item.ofSource] at hwords hload hwork
    omega
  · have hmirrors := mirrors_program (Cursor.ofSource source)
    rw [parse]
    cases hprogram : program (Cursor.ofSource source) with
    | ok statements r hlt =>
        rw [hprogram] at hmirrors
        obtain ⟨j, hreached⟩ := hmirrors.1.steps
        have hs := hsteps.eq_of_halted hhalted hreached rfl
        exact .inr ⟨fun _ ↦ by rw [hs], fun _ ↦ ⟨statements, rfl⟩⟩
    | fail e r =>
        rw [hprogram] at hmirrors
        have hstuck {rest : List Item} (h : StuckAt [.program] (Cursor.ofSource source) rest) :
            (∃ statements, (Except.error e : Except SyntaxError (List Stmt)) = .ok statements) ↔
              s.1 = [] := by
          obtain ⟨j, g, more, hreached, hnone⟩ := h.steps
          simp [hsteps.eq_of_halted hhalted hreached hnone]
        cases e with
        | lexical f => exact .inl ⟨f, rfl⟩
        | unexpectedToken expected t span =>
            obtain ⟨l, others, -, -, h⟩ := hmirrors
            exact .inr (hstuck h)
        | unexpectedEnd expected span => exact .inr (hstuck hmirrors.2)

end Surface
end Barista
