import Barista.Proofs.Scoping.Trail
import Mathlib.Data.List.Nodup

/-!
# Thinning a trail

A trail is thinned by leaving out stretches of it: whole scopes, which nothing outside can see into,
and stretches that may take declarations with them which are seen from further on.  What is still
mentioned after that has kept its declaration, unless it is one of those that were lost.
-/

namespace Barista
namespace Scoping
namespace Trail

variable {α : Type}

/-! ## Scopes that are left again -/

/-- Every scope that is opened along the trail is left again before it ends. -/
def Closes (t : Trail α) : Prop :=
  ∀ front back, t = front ++ back → enters back ≤ leaves back

/-- An element of two lists in a row stands in the first or in the second. -/
theorem append_eq_append_cons {s t before behind : List α} {m : α}
    (h : s ++ t = before ++ m :: behind) :
    (∃ rest, s = before ++ m :: rest ∧ behind = rest ++ t) ∨
      ∃ rest, before = s ++ rest ∧ t = rest ++ m :: behind := by
  rcases List.append_eq_append_iff.1 h with ⟨rest, hbefore, ht⟩ | ⟨rest, hs, hbehind⟩
  · exact .inr ⟨rest, hbefore, ht⟩
  · rcases rest with _ | ⟨m', rest⟩
    · exact .inr ⟨[], by simpa using hs.symm, by simpa using hbehind.symm⟩
    · obtain ⟨rfl, rfl⟩ := List.cons.inj hbehind
      exact .inl ⟨rest, hs, rfl⟩

namespace Closes

theorem enters_le {t : Trail α} (h : Closes t) : enters t ≤ leaves t :=
  h [] t rfl

theorem nil : Closes ([] : Trail α) := by
  intro front back h
  obtain ⟨-, rfl⟩ := List.append_eq_nil_iff.1 h.symm
  exact Nat.le_refl 0

theorem append {s t : Trail α} (hs : Closes s) (ht : Closes t) : Closes (s ++ t) := by
  intro front back h
  rcases List.append_eq_append_iff.1 h with ⟨middle, -, hmiddle⟩ | ⟨middle, hmiddle, rfl⟩
  · exact ht middle back hmiddle
  · have hback := hs front middle hmiddle
    have hall := ht.enters_le
    rw [enters_append, leaves_append]
    omega

theorem singleton {m : Mark α} (h : m.isEnter = false) : Closes [m] := by
  intro front back hsplit
  have hcount : enters [m] = 0 := by simp [enters, h]
  rw [hsplit, enters_append] at hcount
  omega

theorem uses (as : List α) : Closes (as.map .use) := by
  induction as with
  | nil => exact nil
  | cons a as ih => exact (singleton rfl).append ih

theorem binds (as : List α) : Closes (as.map .bind) := by
  induction as with
  | nil => exact nil
  | cons a as ih => exact (singleton rfl).append ih

theorem nested {t : Trail α} (h : Closes t) : Closes (nested t) := by
  have hend : Closes (t ++ [.leave]) := h.append (singleton rfl)
  intro front back hsplit
  rcases front with _ | ⟨m, front⟩
  · have hcount := h.enters_le
    have hback : back = [.enter] ++ t ++ [.leave] := hsplit.symm
    have henters : enters ([.enter] : Trail α) + enters ([.leave] : Trail α) = 1 := rfl
    have hleaves : leaves ([.enter] : Trail α) + leaves ([.leave] : Trail α) = 1 := rfl
    simp only [hback, enters_append, leaves_append]
    omega
  · exact hend front back (List.cons.inj hsplit).2

/-- What is declared in a scope is not seen from behind it. -/
theorem not_staysOpen_of_bind {inner before rest behind : Trail α} {a : α} (h : Closes inner)
    (hscope : Trail.nested inner = before ++ .bind a :: rest) : ¬ StaysOpen (rest ++ behind) := by
  intro hopen
  rcases before with _ | ⟨m, before⟩
  · cases (List.cons.inj hscope).1
  · rcases concat_eq_append_cons (List.cons.inj hscope).2 with ⟨-, hbind, -⟩ | ⟨back, rfl, hback⟩
    · cases hbind
    · have hcount := h (before ++ [.bind a]) back (by simpa using hback)
      have hleaves := hopen (back ++ [.leave]) (List.prefix_append _ behind)
      have hleave : leaves ([.leave] : Trail α) = 1 := rfl
      have henter : enters ([.leave] : Trail α) = 0 := rfl
      rw [enters_append, leaves_append, hleave, henter] at hleaves
      omega

end Closes

/-! ## Thinning -/

/-- The second trail is the first without some scopes and some other stretches, where the latter
declared what is lost. -/
inductive Thins : List α → Trail α → Trail α → Prop
  | nil : Thins [] [] []
  | keep {lost t t'} (m : Mark α) (h : Thins lost t t') : Thins lost (m :: t) (m :: t')
  | scope {lost t t'} {inner : Trail α} (hinner : Closes inner) (h : Thins lost t t') :
      Thins lost (nested inner ++ t) t'
  | stretch {lost t t'} (gone : Trail α) (h : Thins lost t t') :
      Thins (bound gone ++ lost) (gone ++ t) t'

namespace Thins

variable {lost lost₁ lost₂ : List α} {t t' t₁ t₁' t₂ t₂' : Trail α}

theorem refl (t : Trail α) : Thins [] t t := by
  induction t with
  | nil => exact .nil
  | cons m t ih => exact .keep m ih

/-- All of the trail is lost. -/
theorem drop (t : Trail α) : Thins (bound t) t [] := by
  have h := Thins.stretch t .nil
  rwa [List.append_nil, List.append_nil] at h

theorem append (h₁ : Thins lost₁ t₁ t₁') (h₂ : Thins lost₂ t₂ t₂') :
    Thins (lost₁ ++ lost₂) (t₁ ++ t₂) (t₁' ++ t₂') := by
  induction h₁ with
  | nil => exact h₂
  | keep m _ ih => exact .keep m ih
  | scope hinner _ ih =>
      rw [List.append_assoc]
      exact .scope hinner ih
  | stretch gone _ ih =>
      rw [List.append_assoc, List.append_assoc]
      exact .stretch gone ih

theorem nested (h : Thins lost t t') : Thins lost (nested t) (nested t') := by
  have hend := h.append (refl [.leave])
  rw [List.append_nil] at hend
  exact .keep .enter hend

theorem dropUses (as : List α) : Thins [] (as.map .use) [] := by
  have h := drop (as.map Mark.use)
  rwa [bound_map_use] at h

theorem uses {as as' : List α} (h : as'.Sublist as) : Thins [] (as.map .use) (as'.map .use) := by
  induction h with
  | slnil => exact .nil
  | cons a _ ih => exact .stretch [.use a] ih
  | cons_cons a _ ih => exact .keep (.use a) ih

theorem contents_sublist (h : Thins lost t t') : (contents t').Sublist (contents t) := by
  induction h with
  | nil => exact List.Sublist.refl _
  | @keep _ t t' m _ ih =>
      have hsplit (t : Trail α) : contents (m :: t) = contents [m] ++ contents t :=
        contents_append [m] t
      rw [hsplit t, hsplit t']
      exact (List.Sublist.refl _).append ih
  | scope _ _ ih =>
      rw [contents_append]
      exact ih.trans (List.sublist_append_right _ _)
  | stretch _ _ ih =>
      rw [contents_append]
      exact ih.trans (List.sublist_append_right _ _)

/-- A mention that is left was there before, and what it could see was kept or lost. -/
theorem exists_use (h : Thins lost t t') {pre post : Trail α} {a : α}
    (huse : t' = pre ++ .use a :: post) :
    ∃ front back, t = front ++ .use a :: back ∧ ∀ before behind,
      front = before ++ .bind a :: behind → StaysOpen behind → a ∈ lost ∨ .bind a ∈ pre := by
  induction h generalizing pre with
  | nil => simp at huse
  | @keep lost t t' m _ ih =>
      rcases pre with _ | ⟨m', pre⟩
      · obtain ⟨rfl, rfl⟩ := List.cons.inj huse
        exact ⟨[], t, rfl, by simp⟩
      · obtain ⟨rfl, hrest⟩ := List.cons.inj huse
        obtain ⟨front, back, rfl, hsees⟩ := ih hrest
        refine ⟨m :: front, back, rfl, ?_⟩
        rintro (_ | ⟨m', before⟩) behind hsplit hopen
        · obtain ⟨rfl, -⟩ := List.cons.inj hsplit
          exact .inr List.mem_cons_self
        · obtain ⟨-, hsplit⟩ := List.cons.inj hsplit
          exact (hsees before behind hsplit hopen).imp_right (List.mem_cons_of_mem m)
  | @scope lost t t' inner hinner _ ih =>
      obtain ⟨front, back, rfl, hsees⟩ := ih huse
      refine ⟨Trail.nested inner ++ front, back, by simp, ?_⟩
      intro before behind hsplit hopen
      -- A declaration inside the scope is hidden by its end, so only one behind it is seen.
      rcases append_eq_append_cons hsplit with ⟨rest, hrest, rfl⟩ | ⟨rest, -, hrest⟩
      · exact (hinner.not_staysOpen_of_bind hrest hopen).elim
      · exact hsees rest behind hrest hopen
  | @stretch lost t t' gone _ ih =>
      obtain ⟨front, back, rfl, hsees⟩ := ih huse
      refine ⟨gone ++ front, back, by simp, ?_⟩
      intro before behind hsplit hopen
      rcases append_eq_append_cons hsplit with ⟨rest, rfl, -⟩ | ⟨rest, -, hrest⟩
      · have hgone : a ∈ bound (before ++ .bind a :: rest) := mem_bound_iff.2 (by simp)
        exact .inl (List.mem_append_left _ hgone)
      · exact (hsees rest behind hrest hopen).imp_left (List.mem_append_right _)

theorem count_le [DecidableEq α] (h : Thins lost t t') (a : α) :
    lost.count a + (bound t').count a ≤ (bound t).count a := by
  induction h with
  | nil => exact Nat.le_refl _
  | @keep lost t t' m _ ih =>
      have hsplit (t : Trail α) : bound (m :: t) = bound [m] ++ bound t := bound_append [m] t
      rw [hsplit t, hsplit t', List.count_append, List.count_append]
      omega
  | scope _ _ ih =>
      rw [bound_append, List.count_append]
      omega
  | stretch gone _ ih =>
      rw [bound_append, List.count_append, List.count_append]
      omega

/-- Where nothing is declared twice, what is lost is declared no more. -/
theorem bind_not_mem [DecidableEq α] (h : Thins lost t t') (hnodup : (bound t).Nodup) {a : α}
    (ha : a ∈ lost) : .bind a ∉ t' := by
  intro hbind
  have hkept := List.count_pos_iff.2 (mem_bound_iff.2 hbind)
  have hlost := List.count_pos_iff.2 ha
  have honce := List.nodup_iff_count_le_one.1 hnodup a
  have hall := h.count_le a
  omega

end Thins
end Trail
end Scoping
end Barista
