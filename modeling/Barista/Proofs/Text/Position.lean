import Mathlib.Data.List.DropRight
import Barista.Span

/-!
# Positions tell places apart

A place between two characters is seen on the line that the line breaks before it count and in the
column that the characters behind the last of them count.  A character moves the position on, so
later places have later positions and no two places are seen at the same one.
-/

namespace Barista

open Text (byteWidth)

/-- The offset stands between two characters of the text, or at one of its ends. -/
def Text.Boundary (source : String) (offset : Nat) : Prop :=
  ∃ before after, source.toList = before ++ after ∧ offset = byteWidth before

namespace Position

/-- On an earlier line, or further to the left on the same one. -/
def Before (p q : Position) : Prop :=
  p.line < q.line ∨ p.line = q.line ∧ p.column < q.column

variable {p q r : Position} {source : String} {a b : Nat}

theorem Before.trans (hpq : p.Before q) (hqr : q.Before r) : p.Before r := by
  simp only [Before] at *
  omega

theorem not_before_self (p : Position) : ¬ p.Before p := by
  simp [Before]

theorem before_after (p : Position) (c : Char) : p.Before (p.after c) := by
  rw [after]
  split
  · exact .inl (Nat.lt_succ_self _)
  · exact .inr ⟨rfl, Nat.lt_succ_self _⟩

theorem before_foldl_after {cs : List Char} (hcs : cs ≠ []) (p : Position) :
    p.Before (cs.foldl after p) := by
  induction cs generalizing p with
  | nil => exact absurd rfl hcs
  | cons c cs ih =>
      have hfirst := before_after p c
      by_cases hrest : cs = []
      · rw [hrest]
        exact hfirst
      · exact hfirst.trans (ih hrest (p.after c))

/-- Characters move the line by their line breaks, and the column by what follows the last one. -/
theorem foldl_after_origin (cs : List Char) :
    cs.foldl after origin =
      ⟨1 + cs.count '\n', 1 + (cs.rtakeWhile (· ≠ '\n')).length⟩ := by
  induction cs using List.reverseRecOn with
  | nil => rfl
  | append_singleton cs c ih =>
      rw [List.foldl_concat, ih, after, List.rtakeWhile_concat, List.count_append]
      by_cases hc : c = '\n'
      · simp [hc, Nat.add_assoc]
      · simp [hc, Nat.add_assoc]

theorem locate_eq_foldl {before after' : List Char} (h : source.toList = before ++ after') :
    locate source (byteWidth before) = before.foldl after origin := by
  rw [locate, h, walk_byteWidth]

/-- Of two places, the text up to the first is the start of the text up to the second. -/
theorem locate_before_of_lt (ha : Text.Boundary source a) (hb : Text.Boundary source b)
    (h : a < b) : (locate source a).Before (locate source b) := by
  obtain ⟨before, after', hsource, rfl⟩ := ha
  obtain ⟨longer, shorter, hsource', rfl⟩ := hb
  have hprefix : ∃ cs, longer = before ++ cs := by
    have hboth := hsource.symm.trans hsource'
    rcases List.append_eq_append_iff.1 hboth with ⟨cs, hcs, -⟩ | ⟨cs, hcs, -⟩
    · exact ⟨cs, hcs⟩
    · rw [hcs, Text.byteWidth_append] at h
      omega
  obtain ⟨cs, rfl⟩ := hprefix
  have hcs : cs ≠ [] := by
    rintro rfl
    rw [List.append_nil] at h
    exact Nat.lt_irrefl _ h
  rw [locate_eq_foldl hsource, locate_eq_foldl hsource', List.foldl_append]
  exact before_foldl_after hcs _

theorem locate_before_iff (ha : Text.Boundary source a) (hb : Text.Boundary source b) :
    (locate source a).Before (locate source b) ↔ a < b := by
  refine ⟨fun h ↦ ?_, locate_before_of_lt ha hb⟩
  rcases Nat.lt_trichotomy a b with hlt | rfl | hgt
  · exact hlt
  · exact absurd h (not_before_self _)
  · exact absurd (h.trans (locate_before_of_lt hb ha hgt)) (not_before_self _)

theorem locate_eq_iff (ha : Text.Boundary source a) (hb : Text.Boundary source b) :
    locate source a = locate source b ↔ a = b := by
  refine ⟨fun h ↦ ?_, congrArg _⟩
  rcases Nat.lt_trichotomy a b with hlt | heq | hgt
  · have hbefore := locate_before_of_lt ha hb hlt
    rw [h] at hbefore
    exact absurd hbefore (not_before_self _)
  · exact heq
  · have hbefore := locate_before_of_lt hb ha hgt
    rw [h] at hbefore
    exact absurd hbefore (not_before_self _)

end Position
end Barista
