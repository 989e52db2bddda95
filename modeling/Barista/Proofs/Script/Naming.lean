import Barista.Script.Expression
import Barista.Script.Name
import Barista.Proofs.Scoping.Occurrence
import Mathlib.Data.List.Nodup

/-!
# Names in a script are given once and never twice

The numbered forms of a name differ from each other, so the search for a free one ends at a name
that nobody has.  A given name stays as it is, and what an expression is written as depends only on
the names of what it mentions.
-/

namespace Barista
namespace Script

open Barista.Core (Entity Entities Expr)

/-! ## Fresh names -/

theorem numbered_injective (base : String) : Function.Injective (numbered base) := by
  intro i j h
  have hnumbers : toString i = toString j := (String.append_right_inj (base ++ "_")).1 h
  rw [Nat.toString_eq_ofList_toDigits, Nat.toString_eq_ofList_toDigits] at hnumbers
  have hdigits := String.ofList_injective hnumbers
  rw [← @Nat.ofDigitChars_ten_toDigits i, hdigits, Nat.ofDigitChars_ten_toDigits]

/-- The search gives a numbered form from `k` on that is not used. -/
theorem firstFree_spec (base : String) (used : List String) (k : Nat) :
    ∃ n, k ≤ n ∧ firstFree base used k = numbered base n ∧ numbered base n ∉ used := by
  induction used, k using firstFree.induct base with
  | case1 used k h ih =>
      obtain ⟨n, hle, heq, hfree⟩ := ih
      refine ⟨n, by omega, ?_, ?_⟩
      · rw [firstFree, dif_pos h, heq]
      · -- only a form with a smaller number was taken off the list
        intro hused
        apply hfree
        refine (List.mem_erase_of_ne ?_).2 hused
        intro hsame
        have hn := numbered_injective base hsame
        omega
  | case2 used k h =>
      refine ⟨k, Nat.le_refl k, ?_, h⟩
      rw [firstFree, dif_neg h]

theorem freshName_not_mem (used : List String) (name : String) : freshName used name ∉ used := by
  simp only [freshName]
  split
  · obtain ⟨n, -, heq, hfree⟩ := firstFree_spec (safeName name) used 2
    rw [heq]
    exact hfree
  · assumption

theorem not_reserved_of_underscore {name : String} (h : '_' ∈ name.toList) : name ∉ reserved := by
  have hall : ∀ word ∈ reserved, '_' ∉ word.toList := by decide
  intro hmem
  exact hall name hmem h

theorem safeName_not_reserved (name : String) : safeName name ∉ reserved := by
  simp only [safeName]
  split
  · apply not_reserved_of_underscore
    simp
  · assumption

theorem freshName_not_reserved (used : List String) (name : String) :
    freshName used name ∉ reserved := by
  simp only [freshName]
  split
  · obtain ⟨n, -, heq, -⟩ := firstFree_spec (safeName name) used 2
    rw [heq]
    apply not_reserved_of_underscore
    simp [numbered]
  · exact safeName_not_reserved name

/-! ## Tables of names -/

namespace Names

variable {names : Names} {entities : Entities} {entity other : Entity} {name : String}

/-- No two entries have the same name, and none has a reserved one. -/
structure Distinct (names : Names) : Prop where
  nodup : names.used.Nodup
  unreserved : ∀ name ∈ names.used, name ∉ reserved

theorem distinct_empty : empty.Distinct :=
  ⟨List.nodup_nil, fun _ h ↦ by cases h⟩

theorem mem_used_of_name? (h : names.name? entity = some name) : name ∈ names.used := by
  obtain ⟨front, back, hgiven, -⟩ := List.lookup_eq_some_iff.1 h
  simp [used, hgiven]

theorem Distinct.eq_of_name? (hdistinct : names.Distinct) (h : names.name? entity = some name)
    (h' : names.name? other = some name) : entity = other := by
  obtain ⟨front, back, hgiven, -⟩ := List.lookup_eq_some_iff.1 h
  obtain ⟨front', back', hgiven', -⟩ := List.lookup_eq_some_iff.1 h'
  have hmem : (entity, name) ∈ names.given := by simp [hgiven]
  have hmem' : (other, name) ∈ names.given := by simp [hgiven']
  have hsame := List.inj_on_of_nodup_map hdistinct.nodup hmem hmem' rfl
  exact congrArg Prod.fst hsame

theorem Distinct.declare (h : names.Distinct) (entities : Entities) (entity : Entity) :
    (names.declare entities entity).2.Distinct := by
  simp only [Names.declare]
  split
  · exact h
  · refine ⟨?_, ?_⟩
    · simp only [used, List.map_cons, List.nodup_cons]
      exact ⟨freshName_not_mem names.used _, h.nodup⟩
    · intro name hname
      rcases List.mem_cons.1 hname with rfl | hname
      · exact freshName_not_reserved _ _
      · exact h.unreserved name hname

/-- A name that was given is kept. -/
theorem name?_declare_of_some (h : names.name? other = some name) :
    (names.declare entities entity).2.name? other = some name := by
  simp only [declare]
  split
  · exact h
  · rename_i hnone
    have hne : other ≠ entity := by
      rintro rfl
      rw [h] at hnone
      cases hnone
    have hbeq : (other == entity) = false := by simpa using hne
    simp only [name?, List.lookup_cons, hbeq]
    exact h

theorem refer_eq_of_name? (h : names.name? entity = some name) :
    names.refer entities entity = name := by
  simp only [refer, h]

theorem Distinct.declareAll (h : names.Distinct) (entities : Entities) (es : List Entity) :
    (names.declareAll entities es).2.Distinct := by
  induction es generalizing names with
  | nil => exact h
  | cons e es ih => exact ih (h.declare entities e)

theorem name?_declareAll_of_some {es : List Entity} (h : names.name? other = some name) :
    (names.declareAll entities es).2.name? other = some name := by
  induction es generalizing names with
  | nil => exact h
  | cons e es ih => exact ih (name?_declare_of_some h)

theorem exists_name?_declareAll {es : List Entity} (h : entity ∈ es) :
    ∃ name, (names.declareAll entities es).2.name? entity = some name := by
  induction es generalizing names with
  | nil => cases h
  | cons e es ih =>
      rcases List.mem_cons.1 h with rfl | h
      · have hself := name?_declare_self names entities entity
        refine ⟨(names.declare entities entity).1, ?_⟩
        rw [declareAll]
        exact name?_declareAll_of_some hself
      · exact ih h

theorem declareAll_append (names : Names) (entities : Entities) (es es' : List Entity) :
    (names.declareAll entities (es ++ es')).2 =
      ((names.declareAll entities es).2.declareAll entities es').2 := by
  induction es generalizing names with
  | nil => rfl
  | cons e es ih => exact ih _

/-- The names that are handed out are those in the table afterwards. -/
theorem declareAll_fst (names : Names) (entities : Entities) (es : List Entity) :
    (names.declareAll entities es).1 =
      es.map ((names.declareAll entities es).2.refer entities) := by
  induction es generalizing names with
  | nil => rfl
  | cons e es ih =>
      have hself := name?_declare_self names entities e
      have hkept : ((names.declare entities e).2.declareAll entities es).2.refer entities e =
          (names.declare entities e).1 :=
        refer_eq_of_name? (name?_declareAll_of_some hself)
      simp only [declareAll, List.map_cons, hkept, ih]

end Names

/-! ## What an expression is written as -/

mutual

/-- Only the entities that an expression mentions count. -/
theorem render_congr {f g : Entity → String} :
    ∀ e : Expr, (∀ entity ∈ e.refs, f entity = g entity) → render f e = render g e
  | .int _, _ | .double _, _ | .bool _, _ | .string _, _ => by
      simp only [render]
  | .var id, h => by
      simp only [render]
      exact h _ (List.mem_singleton_self _)
  | .binary op l r type, h => by
      have hl := render_congr l fun entity hentity ↦ h entity (List.mem_append_left _ hentity)
      have hr := render_congr r fun entity hentity ↦ h entity (List.mem_append_right _ hentity)
      simp only [render, hl, hr]
  | .unary op e type, h => by
      have he := render_congr e h
      simp only [render, he]
  | .ternary c y n type, h => by
      have hc := render_congr c fun entity hentity ↦
        h entity (List.mem_append_left _ (List.mem_append_left _ hentity))
      have hy := render_congr y fun entity hentity ↦
        h entity (List.mem_append_left _ (List.mem_append_right _ hentity))
      have hn := render_congr n fun entity hentity ↦ h entity (List.mem_append_right _ hentity)
      simp only [render, hc, hy, hn]
  | .call callee args type, h => by
      have hcallee := h (.function callee) List.mem_cons_self
      have hargs := renderAll_congr args fun entity hentity ↦
        h entity (List.mem_cons_of_mem _ hentity)
      simp only [render, hcallee, hargs]
  | .index a i type, h => by
      have ha := render_congr a fun entity hentity ↦ h entity (List.mem_append_left _ hentity)
      have hi := render_congr i fun entity hentity ↦ h entity (List.mem_append_right _ hentity)
      simp only [render, ha, hi]
  | .array items type, h => by
      have hitems := renderAll_congr items h
      simp only [render, hitems]

theorem renderAll_congr {f g : Entity → String} :
    ∀ es : List Expr, (∀ entity ∈ Expr.allRefs es, f entity = g entity) →
      renderAll f es = renderAll g es
  | [], _ => rfl
  | e :: es, h => by
      have he := render_congr e fun entity hentity ↦ h entity (List.mem_append_left _ hentity)
      have hes := renderAll_congr es fun entity hentity ↦ h entity (List.mem_append_right _ hentity)
      simp only [renderAll, he, hes]

end

end Script
end Barista
