import Barista.Surface.Statement

/-!
# What a reader reads

A reader reads a value up to a cursor when it succeeds with both.  One law for each way to put
readers together says what the whole reads in terms of what its parts read, so that nothing further
on has to open an outcome.
-/

namespace Barista

open Surface

/-! ## Cursors -/

namespace Cursor

/-- The next item is this token with this span, and the other cursor stands behind it. -/
def Passes (c : Cursor) (token : Token) (span : Span) (r : Cursor) : Prop :=
  (∃ onNewLine, c.items = .lexeme ⟨token, span, onNewLine⟩ :: r.items) ∧
    r.last = span ∧ r.stop = c.stop

def PassesName (c : Cursor) (name : Name) (r : Cursor) : Prop :=
  c.Passes (.ident name.text) name.span r

/-- The next item is a token with the property. -/
def Ahead (c : Cursor) (P : Token → Prop) : Prop :=
  ∃ l items, c.items = .lexeme l :: items ∧ P l.token

/-- The text ends here, or the next item is a token with the property. -/
def Clear (c : Cursor) (P : Token → Prop) : Prop :=
  c.items = [] ∨ c.Ahead P

variable {c r r' : Cursor} {token token' : Token} {span span' : Span} {P Q : Token → Prop}

theorem Passes.length_lt (h : c.Passes token span r) : r.length < c.length := by
  obtain ⟨⟨onNewLine, hitems⟩, -⟩ := h
  simp [length, hitems]

theorem Passes.ahead (h : c.Passes token span r) (hP : P token) : c.Ahead P := by
  obtain ⟨⟨onNewLine, hitems⟩, -⟩ := h
  exact ⟨_, _, hitems, hP⟩

theorem Passes.eq (h : c.Passes token span r) (h' : c.Passes token' span' r') :
    token = token' ∧ span = span' ∧ r = r' := by
  obtain ⟨⟨onNewLine, hitems⟩, hlast, hstop⟩ := h
  obtain ⟨⟨onNewLine', hitems'⟩, hlast', hstop'⟩ := h'
  rw [hitems] at hitems'
  simp only [List.cons.injEq, Item.lexeme.injEq, Lexeme.mk.injEq] at hitems'
  obtain ⟨⟨htoken, hspan, -⟩, hrest⟩ := hitems'
  refine ⟨htoken, hspan, ?_⟩
  cases r
  cases r'
  simp_all

theorem Ahead.exists_passes (h : c.Ahead P) : ∃ token span r, c.Passes token span r ∧ P token := by
  obtain ⟨l, items, hitems, hP⟩ := h
  exact ⟨l.token, l.span, ⟨items, l.span, c.stop⟩, ⟨⟨l.onNewLine, hitems⟩, rfl, rfl⟩, hP⟩

theorem Ahead.of_passes (h : c.Ahead P) (hpasses : c.Passes token span r) : P token := by
  obtain ⟨token', span', r', hpasses', hP⟩ := h.exists_passes
  rwa [(hpasses.eq hpasses').1]

theorem Ahead.imp (h : c.Ahead P) (hPQ : ∀ token, P token → Q token) : c.Ahead Q := by
  obtain ⟨l, items, hitems, hP⟩ := h
  exact ⟨l, items, hitems, hPQ _ hP⟩

theorem Ahead.clear (h : c.Ahead P) : c.Clear P :=
  .inr h

theorem Passes.clear (h : c.Passes token span r) (hP : P token) : c.Clear P :=
  (h.ahead hP).clear

theorem Clear.imp (h : c.Clear P) (hPQ : ∀ token, P token → Q token) : c.Clear Q :=
  Or.imp_right (fun hahead ↦ hahead.imp hPQ) h

theorem Passes.view (h : c.Passes token span r) :
    ∃ onNewLine shorter, c.view = .lexeme ⟨token, span, onNewLine⟩ r shorter := by
  obtain ⟨items, last, stop⟩ := c
  obtain ⟨rest, last', stop'⟩ := r
  obtain ⟨⟨onNewLine, hitems⟩, hlast, hstop⟩ := h
  cases hitems
  cases hlast
  cases hstop
  exact ⟨onNewLine, Nat.lt_succ_self _, rfl⟩

theorem passes_of_view {l : Lexeme} {shorter : r.length < c.length}
    (h : c.view = .lexeme l r shorter) : c.Passes l.token l.span r := by
  obtain ⟨items, last, stop⟩ := c
  rcases items with _ | ⟨l' | f, items⟩
  · cases h
  · cases h
    exact ⟨⟨l.onNewLine, rfl⟩, rfl, rfl⟩
  · cases h

theorem items_of_view_finish (h : c.view = .finish) : c.items = [] := by
  obtain ⟨items, last, stop⟩ := c
  rcases items with _ | ⟨l | f, items⟩
  · rfl
  · cases h
  · cases h

theorem view_of_items_nil (h : c.items = []) : c.view = .finish := by
  obtain ⟨items, last, stop⟩ := c
  cases h
  rfl

end Cursor

/-! ## Outcomes -/

namespace Surface
namespace Outcome

variable {α β : Type} {n m : Nat} {o : Outcome n α} {a : α} {b : β} {c r r' : Cursor}

def Reads (o : Outcome n α) (a : α) (r : Cursor) : Prop :=
  ∃ bound, o = .ok a r bound

theorem Reads.length_lt (h : o.Reads a r) : r.length < n := h.1

/-- A reader reads one thing only. -/
theorem Reads.eq {a' : α} (h : o.Reads a r) (h' : o.Reads a' r') : a = a' ∧ r = r' := by
  obtain ⟨bound, rfl⟩ := h
  obtain ⟨bound', h'⟩ := h'
  cases h'
  exact ⟨rfl, rfl⟩

theorem reads_ok {value : α} {bound : r.length < n} :
    (Outcome.ok value r bound).Reads a r' ↔ a = value ∧ r' = r := by
  constructor
  · rintro ⟨bound', h⟩
    cases h
    exact ⟨rfl, rfl⟩
  · rintro ⟨rfl, rfl⟩
    exact ⟨bound, rfl⟩

theorem not_reads_fail {error : SyntaxError} :
    ¬ (Outcome.fail error r : Outcome n α).Reads a r' := by
  rintro ⟨bound, h⟩
  cases h

theorem reads_done {value : α} : (Outcome.done value c).Reads a r ↔ a = value ∧ r = c :=
  reads_ok

theorem reads_mono {h : n ≤ m} : (o.mono h).Reads a r ↔ o.Reads a r := by
  cases o with
  | ok value rest bound => rw [mono, reads_ok, reads_ok]
  | fail error rest => simp only [mono, not_reads_fail]

theorem reads_relax : o.relax.Reads a r ↔ o.Reads a r :=
  reads_mono

theorem reads_after {h : n < m} : (o.after h).Reads a r ↔ o.Reads a r :=
  reads_mono

theorem reads_map {f : α → β} : (o.map f).Reads b r ↔ ∃ a, o.Reads a r ∧ f a = b := by
  cases o with
  | ok value rest bound =>
      simp only [map, reads_ok]
      constructor
      · rintro ⟨rfl, rfl⟩
        exact ⟨value, ⟨rfl, rfl⟩, rfl⟩
      · rintro ⟨a, ⟨rfl, rfl⟩, rfl⟩
        exact ⟨rfl, rfl⟩
  | fail error rest => simp only [map, not_reads_fail, false_and, exists_false]

theorem reads_andThen
    {f : α → (rest : Cursor) → rest.length < n → Outcome (rest.length + 1) β} :
    (o.andThen f).Reads b r ↔ ∃ a c h, o.Reads a c ∧ (f a c h).Reads b r := by
  cases o with
  | ok value rest bound =>
      rw [andThen, reads_mono]
      constructor
      · intro h
        exact ⟨value, rest, bound, ⟨bound, rfl⟩, h⟩
      · rintro ⟨a, c, hlt, h, hrest⟩
        obtain ⟨rfl, rfl⟩ := reads_ok.1 h
        exact hrest
  | fail error rest =>
      constructor
      · intro h
        exact (not_reads_fail h).elim
      · rintro ⟨a, c, -, h, -⟩
        exact (not_reads_fail h).elim

theorem Reads.map (h : o.Reads a r) (f : α → β) : (o.map f).Reads (f a) r :=
  reads_map.2 ⟨a, h, rfl⟩

theorem Reads.relax (h : o.Reads a r) : o.relax.Reads a r :=
  reads_relax.2 h

theorem Reads.after (h : o.Reads a r) {hlt : n < m} : (o.after hlt).Reads a r :=
  reads_after.2 h

theorem Reads.andThen
    {f : α → (rest : Cursor) → rest.length < n → Outcome (rest.length + 1) β}
    (h : o.Reads a c) (hrest : (f a c h.length_lt).Reads b r) : (o.andThen f).Reads b r :=
  reads_andThen.2 ⟨a, c, h.length_lt, h, hrest⟩

end Outcome
end Surface

/-! ## Tokens -/

namespace Cursor

open Outcome

variable {α β : Type} {n : Nat} {c r : Cursor} {token : Token} {span : Span}

theorem reads_take {expected : Expectation} {accept : Token → Option α} {value : α × Span} :
    (c.take expected accept).Reads value r ↔
      ∃ token, c.Passes token value.2 r ∧ accept token = some value.1 := by
  rw [take]
  constructor
  · intro h
    split at h
    · rename_i l rest shorter hview
      split at h
      · rename_i found haccept
        obtain ⟨rfl, rfl⟩ := reads_ok.1 h
        exact ⟨l.token, passes_of_view hview, haccept⟩
      · exact (not_reads_fail h).elim
    · exact (not_reads_fail h).elim
    · exact (not_reads_fail h).elim
  · rintro ⟨token, hpasses, haccept⟩
    obtain ⟨onNewLine, shorter, hview⟩ := hpasses.view
    rw [hview]
    dsimp only
    rw [haccept]
    exact reads_ok.2 ⟨rfl, rfl⟩

theorem only_eq_some_iff {found : Token} {u : Unit} :
    only token found = some u ↔ found = token := by
  simp [only]

theorem only_self (token : Token) : only token token = some () :=
  only_eq_some_iff.2 rfl

theorem only_eq_none_iff {found : Token} : only token found = none ↔ found ≠ token := by
  simp [only]

theorem reads_expect : (c.expect token).Reads span r ↔ c.Passes token span r := by
  rw [expect, reads_map]
  constructor
  · rintro ⟨value, htake, rfl⟩
    obtain ⟨found, hpasses, haccept⟩ := reads_take.1 htake
    rwa [only_eq_some_iff.1 haccept] at hpasses
  · intro hpasses
    exact ⟨((), span), reads_take.2 ⟨token, hpasses, only_self token⟩, rfl⟩

theorem reads_expectName {name : Name} : c.expectName.Reads name r ↔ c.PassesName name r := by
  rw [expectName, reads_map]
  constructor
  · rintro ⟨⟨text, span⟩, htake, rfl⟩
    obtain ⟨found, hpasses, haccept⟩ := reads_take.1 htake
    dsimp only at haccept
    split at haccept
    · cases haccept
      exact hpasses
    · cases haccept
  · intro hpasses
    exact ⟨(name.text, name.span), reads_take.2 ⟨_, hpasses, rfl⟩, rfl⟩

section IfNext

variable {slack : Nat} {accept : Token → Option β} {a : α}
  {present : β → Lexeme → (rest : Cursor) → rest.length < c.length → Outcome (rest.length + 1) α}
  {absent : Unit → Outcome (c.length + slack) α}

/-- A choice by the next token. -/
theorem reads_ifNext_cases (hreads : (c.ifNext slack accept present absent).Reads a r) :
    (∃ l value c₁ shorter, c.Passes l.token l.span c₁ ∧ accept l.token = some value ∧
      (present value l c₁ shorter).Reads a r) ∨
    (c.Clear (accept · = none) ∧ (absent ()).Reads a r) := by
  rw [ifNext] at hreads
  split at hreads
  · rename_i l rest shorter hview
    have hpasses := passes_of_view hview
    split at hreads
    · rename_i value haccept
      exact .inl ⟨l, value, rest, shorter, hpasses, haccept, reads_mono.1 hreads⟩
    · rename_i haccept
      exact .inr ⟨hpasses.clear haccept, hreads⟩
  · exact (not_reads_fail hreads).elim
  · rename_i hview
    exact .inr ⟨.inl (items_of_view_finish hview), hreads⟩

theorem reads_ifNext_present {value : β} {c₁ : Cursor} (hpasses : c.Passes token span c₁)
    (haccept : accept token = some value)
    (hreads : ∀ onNewLine,
      (present value ⟨token, span, onNewLine⟩ c₁ hpasses.length_lt).Reads a r) :
    (c.ifNext slack accept present absent).Reads a r := by
  obtain ⟨onNewLine, shorter, hview⟩ := hpasses.view
  rw [ifNext, hview]
  dsimp only
  rw [haccept]
  exact reads_mono.2 (hreads onNewLine)

theorem reads_ifNext_absent (hclear : c.Clear (accept · = none)) (hreads : (absent ()).Reads a r) :
    (c.ifNext slack accept present absent).Reads a r := by
  rw [ifNext]
  rcases hclear with hitems | hahead
  · rw [view_of_items_nil hitems]
    exact hreads
  · obtain ⟨token, span, c₁, hpasses, haccept⟩ := hahead.exists_passes
    obtain ⟨onNewLine, shorter, hview⟩ := hpasses.view
    rw [hview]
    dsimp only
    rw [haccept]
    exact hreads

end IfNext

end Cursor
end Barista
