import Barista.Proofs.Script.Naming
import Mathlib.Data.Finset.Card

/-!
# The search for a free name

A name that is in use is numbered from two on.  Its numbered forms differ from each other and from
the name itself, so among as many of them as there are names in use one is free, and the search
stops at the first.  What is handed out in this way tells the entities apart.
-/

namespace Barista
namespace Script

open Barista.Core (Entity Entities)

theorem numbered_ne_base (base : String) (k : Nat) : numbered base k ≠ base := by
  intro h
  have hlength := congrArg String.length h
  simp only [numbered, String.length_append] at hlength
  have hmark : "_".length = 1 := rfl
  omega

/-! ## The first free form -/

/-- The forms that the search has passed are used. -/
theorem mem_used_of_lt_firstFree {base : String} {used : List String} {k n : Nat}
    (h : firstFree base used k = numbered base n) {j : Nat} (hkj : k ≤ j) (hjn : j < n) :
    numbered base j ∈ used := by
  induction used, k using firstFree.induct base with
  | case1 used k hused ih =>
      rw [firstFree, dif_pos hused] at h
      by_cases hj : j = k
      · subst hj
        exact hused
      · apply List.mem_of_mem_erase
        exact ih h (by omega)
  | case2 used k hfree =>
      rw [firstFree, dif_neg hfree] at h
      have hk := numbered_injective base h
      omega

/-- A used name and its forms from two up to `n` are as many used names as their count. -/
theorem lt_card_of_forms_used {base : String} {used : List String} {n : Nat} (hbase : base ∈ used)
    (hforms : ∀ j, 2 ≤ j → j < n → numbered base j ∈ used) : n < 2 + used.toFinset.card := by
  have hinjective : Function.Injective fun i ↦ numbered base (i + 2) := by
    intro i j hij
    have hnumbers := numbered_injective base hij
    omega
  let forms := (Finset.range (n - 2)).image fun i ↦ numbered base (i + 2)
  have hnew : base ∉ forms := by
    intro hmem
    obtain ⟨i, -, hi⟩ := Finset.mem_image.1 hmem
    exact numbered_ne_base base (i + 2) hi
  have hsubset : insert base forms ⊆ used.toFinset := by
    intro name hname
    apply List.mem_toFinset.2
    rcases Finset.mem_insert.1 hname with rfl | hname
    · exact hbase
    · obtain ⟨i, hi, rfl⟩ := Finset.mem_image.1 hname
      have hlt := Finset.mem_range.1 hi
      exact hforms (i + 2) (by omega) (by omega)
  have hcard : n - 2 + 1 ≤ used.toFinset.card := by
    calc
      n - 2 + 1 = (insert base forms).card := by
        rw [Finset.card_insert_of_notMem hnew, Finset.card_image_of_injective _ hinjective,
          Finset.card_range]
      _ ≤ used.toFinset.card := Finset.card_le_card hsubset
  omega

/-- The name that a used name is replaced by is the first free one among as many numbered forms as
there are names in use. -/
theorem freshName_of_used {used : List String} {source : String} (h : safeName source ∈ used) :
    ∃ k, (List.range' 2 used.toFinset.card).find?
        (fun k ↦ decide (numbered (safeName source) k ∉ used)) = some k ∧
      freshName used source = numbered (safeName source) k := by
  obtain ⟨n, htwo, heq, hfree⟩ := firstFree_spec (safeName source) used 2
  have hpassed : ∀ j, 2 ≤ j → j < n → numbered (safeName source) j ∈ used := by
    intro j hj hjn
    exact mem_used_of_lt_firstFree heq hj hjn
  have htries := lt_card_of_forms_used h hpassed
  refine ⟨n, ?_, ?_⟩
  · rw [List.find?_range'_eq_some]
    refine ⟨by simpa using hfree, ?_, ?_⟩
    · simp only [List.mem_range'_1]
      omega
    · intro j hj hjn
      simpa using hpassed j hj hjn
  · simp only [freshName, if_pos h]
    exact heq

/-! ## Names handed out one after the other -/

namespace Names

/-- Two requests are answered alike exactly when they are for the same entity. -/
theorem getElem?_declareAll (entities : Entities) (es : List Entity) (i j : Nat) :
    (empty.declareAll entities es).1[i]? = (empty.declareAll entities es).1[j]? ↔
      es[i]? = es[j]? := by
  have hdistinct := distinct_empty.declareAll entities es
  rw [declareAll_fst, List.getElem?_map, List.getElem?_map]
  constructor
  · intro hsame
    cases hi : es[i]? with
    | none =>
        rw [hi] at hsame
        exact (Option.map_eq_none_iff.1 hsame.symm).symm
    | some entity =>
        rw [hi] at hsame
        obtain ⟨other, hj, hname⟩ := Option.map_eq_some_iff.1 hsame.symm
        have hgiven : ∀ e ∈ es, ∃ name,
            (empty.declareAll entities es).2.name? e = some name :=
          fun e he ↦ exists_name?_declareAll he
        obtain ⟨name, hentity⟩ := hgiven entity (List.mem_of_getElem? hi)
        obtain ⟨name', hother⟩ := hgiven other (List.mem_of_getElem? hj)
        rw [refer_eq_of_name? hentity, refer_eq_of_name? hother] at hname
        subst hname
        rw [hj, hdistinct.eq_of_name? hentity hother]
  · intro hsame
    rw [hsame]

/-- The search for a name ends, whatever names are in use and whatever the name is.  A safe name
that is free is taken as it is; one that is used is numbered with the least number from two on whose
form is free, and that is found with no more tries than there are names in use.  The answer was not
in use, and afterwards it is, besides the names that were; an entity that has a name keeps it and
nothing changes.  So names that are handed out one after the other differ, except that an entity
always has the same one. -/
theorem fresh_names (entities : Entities) :
    (∀ (used : List String) (source : String),
      freshName used source ∉ used ∧
      (safeName source ∉ used → freshName used source = safeName source) ∧
      (safeName source ∈ used → ∃ k, freshName used source = numbered (safeName source) k ∧
        (List.range' 2 used.toFinset.card).find?
          (fun k ↦ decide (numbered (safeName source) k ∉ used)) = some k)) ∧
    (∀ (names : Names) (entity : Entity),
      (names.name? entity = none →
        (names.declare entities entity).1 = freshName names.used (entities.nameOf entity) ∧
        (names.declare entities entity).2.used =
          (names.declare entities entity).1 :: names.used) ∧
      ∀ name, names.name? entity = some name →
        names.declare entities entity = (name, names)) ∧
    ∀ (es : List Entity) (i j : Nat),
      (empty.declareAll entities es).1[i]? = (empty.declareAll entities es).1[j]? ↔
        es[i]? = es[j]? := by
  refine ⟨?_, ?_, getElem?_declareAll entities⟩
  · intro used source
    refine ⟨freshName_not_mem used source, ?_, ?_⟩
    · intro hfree
      simp only [freshName, if_neg hfree]
    · intro hused
      obtain ⟨k, hfind, hname⟩ := freshName_of_used hused
      exact ⟨k, hname, hfind⟩
  · intro names entity
    constructor
    · intro hnone
      simp only [declare, hnone, used, List.map_cons, and_self]
    · intro name hname
      simp only [declare, hname]

/-- A variable `x` is numbered three when `x` and `x_2` are taken. -/
theorem fresh_names_taken :
    freshName ["x_2", "x"] "x" = numbered "x" 3 ∧ freshName ["x_2", "x"] "x" ∉ ["x_2", "x"] := by
  obtain ⟨hnew, -, hused⟩ := (fresh_names ⟨[], []⟩).1 ["x_2", "x"] "x"
  obtain ⟨k, hname, hfind⟩ := hused (by decide)
  have hk : k = 3 := by
    have hthree : (List.range' 2 (["x_2", "x"] : List String).toFinset.card).find?
        (fun k ↦ decide (numbered (safeName "x") k ∉ ["x_2", "x"])) = some 3 := by decide
    rw [hthree] at hfind
    exact (Option.some.inj hfind).symm
  subst hk
  exact ⟨hname, hnew⟩

end Names
end Script
end Barista
