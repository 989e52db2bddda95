import Barista.Proofs.Surface.Transport
import Barista.Proofs.Token.LineBreak

/-!
# Programs one after the other

A line break is all that two programs need between them.  No phrase of the first reaches beyond it:
the only rule that looks further than its own tokens is that of `return`, and it stops there.  The
second is read as if it stood alone, its spans apart.
-/

namespace Barista
namespace Surface

open Item (breakBefore)

/-! ## What stands behind a line break -/

/-- The second cursor has more items behind those of the first, on a line of their own. -/
def Precedes (more : List Item) (c c' : Cursor) : Prop :=
  c'.items = c.items ++ more.modifyHead breakBefore ∧ c'.last = c.last

section Precedes

variable {more : List Item} {c c' : Cursor}

theorem not_valueAhead_of_breakBefore (h : c.items = more.modifyHead breakBefore) :
    ¬ valueAhead c := by
  rintro ⟨l, items, hitems, -, hline⟩
  rw [hitems] at h
  rcases more with _ | ⟨_ | _, more⟩ <;> cases h
  cases hline

/-- A value on the next line does not belong to a `return`. -/
theorem Precedes.valueAhead_iff (h : Precedes more c c') : valueAhead c ↔ valueAhead c' := by
  have hitems := h.1
  cases hc : c.items with
  | nil =>
      rw [hc, List.nil_append] at hitems
      have hnone : ¬ valueAhead c := by
        rintro ⟨l, items, hcons, -⟩
        rw [hc] at hcons
        cases hcons
      exact iff_of_false hnone (not_valueAhead_of_breakBefore hitems)
  | cons item items =>
      rw [hc, List.cons_append] at hitems
      simp only [valueAhead, hc, hitems, List.cons.injEq, exists_and_left, exists_eq_left',
        and_assoc]

theorem matches_precedes (more : List Item) : Matches id id (Precedes more) where
  merge := by
    rintro a b _ _ ⟨⟩ ⟨⟩
    rfl
  last hc := hc.2.symm
  valueAhead_iff hc := hc.valueAhead_iff
  passes := by
    rintro c c' r token s ⟨hitems, -⟩ ⟨⟨onNewLine, hnext⟩, hlast, -⟩
    rw [hnext, List.cons_append] at hitems
    exact ⟨s, ⟨_, s, c'.stop⟩, ⟨⟨onNewLine, hitems⟩, rfl, rfl⟩, rfl, rfl, hlast.symm⟩

/-- Statements are read in front of a line break as in front of the end. -/
theorem Derives.statements_of_precedes {r : Cursor} {ts : List Stmt}
    (h : Derives .statements c ts r) (hc : Precedes more c c') :
    ∃ r', Derives .statements c' ts r' ∧ Precedes more r r' := by
  obtain ⟨ts', r', hderives, hts, hr⟩ := h.transport (matches_precedes more) hc
  have hsame : ts = ts' := by
    rw [← Stmt.mapSpans_id ts, ← Stmt.mapSpans_id ts']
    exact hts
  subst hsame
  exact ⟨r', hderives, hr⟩

end Precedes

/-! ## The line break in front of a program -/

/-- What the one cursor passes, the other one does. -/
def Follows (c c' : Cursor) : Prop :=
  ∀ token s r, c.Passes token s r → c'.Passes token s r

section Follows

variable {c c' r : Cursor}

theorem Derives.type_of_follows {t : TypeName} (h : Derives .type c t r) (hc : Follows c c') :
    Derives .type c' t r := by
  cases h with
  | plainType hword htype => exact .plainType (hc _ _ _ hword) htype
  | arrayType hword hopen helement hclose hspan =>
      exact .arrayType (hc _ _ _ hword) hopen helement hclose hspan

/-- A statement begins with a token, and what is left behind it is the same. -/
theorem Derives.statement_of_follows {t : Stmt} (h : Derives .statement c t r)
    (hc : Follows c c') : Derives .statement c' t r := by
  cases h with
  | declare htype hname hassign hinit =>
      exact .declare (htype.type_of_follows hc) hname hassign hinit
  | function hword hname hopen hparams hclose harrow hresult hbody =>
      exact .function (hc _ _ _ hword) hname hopen hparams hclose harrow hresult hbody
  | assign htarget hsign hvalue => exact .assign (hc _ _ _ htarget) hsign hvalue
  | print hword hopen hargument hclose hspan =>
      exact .print (hc _ _ _ hword) hopen hargument hclose hspan
  | cond hword htest hbody hrest hspan =>
      exact .cond (hc _ _ _ hword) htest hbody hrest hspan
  | loop hword htest hbody hspan => exact .loop (hc _ _ _ hword) htest hbody hspan
  | each hword hiterator hwithin hcollection hbody hspan =>
      exact .each (hc _ _ _ hword) hiterator hwithin hcollection hbody hspan
  | ret hword hahead hvalue hspan => exact .ret (hc _ _ _ hword) hahead hvalue hspan
  | stop hword hahead => exact .stop (hc _ _ _ hword) hahead
  | callStatement hcallee hopen hargs hclose =>
      exact .callStatement (hc _ _ _ hcallee) hopen hargs hclose

theorem follows_of_breakBefore (hitems : c'.items = c.items.modifyHead breakBefore)
    (hstop : c'.stop = c.stop) : Follows c c' := by
  rintro token s r ⟨⟨onNewLine, hnext⟩, hlast, hrest⟩
  rw [hnext] at hitems
  exact ⟨⟨true, hitems⟩, hlast, hrest.trans hstop.symm⟩

theorem IsProgram.of_breakBefore {ts : List Stmt} (h : IsProgram c ts)
    (hitems : c'.items = c.items.modifyHead breakBefore) (hstop : c'.stop = c.stop) :
    IsProgram c' ts := by
  obtain ⟨r, hderives, hnil⟩ := h
  cases hderives with
  | noStatements =>
      rw [hnil] at hitems
      exact ⟨c', .noStatements, hitems⟩
  | statements hfirst hothers =>
      have hfirst' := hfirst.statement_of_follows (follows_of_breakBefore hitems hstop)
      exact ⟨r, .statements hfirst' hothers, hnil⟩

end Follows

/-! ## The two of them -/

theorem IsProgram.append {c r : Cursor} {a b : List Stmt} (ha : Derives .statements c a r)
    (hb : IsProgram r b) : IsProgram c (a ++ b) := by
  induction a generalizing c with
  | nil =>
      cases ha
      exact hb
  | cons first others ih =>
      cases ha with
      | statements hfirst hothers =>
          obtain ⟨r', hderives, hnil⟩ := ih hothers
          exact ⟨r', .statements hfirst hderives, hnil⟩

/-- The program of two texts with a line break between them is that of the first, followed by that
of the second with its spans where they are now. -/
theorem parse_append_newline {s₁ s₂ : String} {t₁ t₂ : List Stmt} (h₁ : parse s₁ = .ok t₁)
    (h₂ : parse s₂ = .ok t₂) :
    parse (s₁ ++ "\n" ++ s₂) =
      .ok (t₁ ++ t₂.map (Stmt.mapSpan (Span.shift (Text.byteWidth s₁.toList + 1)))) := by
  rw [← Stmt.mapSpans_eq_map]
  rw [parse_eq_ok_iff] at h₁ h₂ ⊢
  let shift := Span.shift (Text.byteWidth s₁.toList + 1)
  let more := (Item.ofSource s₂).map (Item.mapSpan shift)
  have hprecedes : Precedes more (Cursor.ofSource s₁) (Cursor.ofSource (s₁ ++ "\n" ++ s₂)) :=
    ⟨Item.ofSource_append_newline s₁ s₂, rfl⟩
  obtain ⟨r₁, hderives, hnil⟩ := h₁
  obtain ⟨r, hfirst, hitems, -⟩ := hderives.statements_of_precedes hprecedes
  rw [hnil, List.nil_append] at hitems
  have halike : Alike shift id (Cursor.ofSource s₂)
      ⟨more, shift (Cursor.ofSource s₂).last, r.stop⟩ := by
    refine ⟨?_, rfl⟩
    rw [Item.mapSpan_id, List.map_id]
    rfl
  obtain ⟨t, hsecond, ht⟩ := h₂.of_alike (Span.shift_merge _) (fun _ _ ↦ rfl) halike
  rw [Stmt.mapSpans_id] at ht
  rw [ht]
  exact .append hfirst (hsecond.of_breakBefore hitems rfl)

end Surface
end Barista
