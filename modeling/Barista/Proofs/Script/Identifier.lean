import Barista.Proofs.Optimize.Pruning
import Barista.Proofs.Script.Generated
import Barista.Proofs.Script.Unambiguous

/-!
# Identifiers stay identifiers

The mark behind a reserved word and the number behind a name that is taken continue the name, so
whatever is written for an entity with an identifier for a name is an identifier.  Nothing occurs in
a script that does not occur in its program.
-/

namespace Barista
namespace Script

open Barista.Core (VarId Entity Entities Expr Program)
open Scoping Scoping.Trail

/-! ## Marked and numbered names -/

theorem isIdentifier_append {name : String} {more : String} (h : isIdentifier name)
    (hmore : ∀ c ∈ more.toList, Munch.continuesName c) : isIdentifier (name ++ more) := by
  obtain ⟨c, cs, hname, hstart, hcontinues⟩ := exists_cons_of_isIdentifier h
  have htext : (name ++ more).toList = c :: (cs ++ more.toList) := by
    rw [String.toList_append, hname, List.cons_append]
  rw [isIdentifier, htext, Bool.and_eq_true, List.all_append, Bool.and_eq_true, List.all_eq_true,
    List.all_eq_true]
  exact ⟨hstart, (List.forall_mem_cons.1 hcontinues).2, hmore⟩

theorem continuesName_of_isDigit {c : Char} (h : c.isDigit) : Munch.continuesName c := by
  simp [Munch.continuesName, Text.isNumber_of_isDigit h]

theorem isIdentifier_safeName {name : String} (h : isIdentifier name) :
    isIdentifier (safeName name) := by
  rw [safeName]
  split
  · exact isIdentifier_append h (by simp [Munch.continuesName])
  · exact h

theorem isIdentifier_numbered {base : String} (h : isIdentifier base) (k : Nat) :
    isIdentifier (numbered base k) := by
  refine isIdentifier_append (isIdentifier_append h (by simp [Munch.continuesName])) ?_
  rw [Nat.toString_eq_ofList_toDigits, String.toList_ofList]
  exact fun c hc ↦ continuesName_of_isDigit (isDigit_of_mem_toDigits c hc)

theorem isIdentifier_freshName {used : List String} {name : String} (h : isIdentifier name) :
    isIdentifier (freshName used name) := by
  have hbase := isIdentifier_safeName h
  simp only [freshName]
  split
  · obtain ⟨n, -, heq, -⟩ := firstFree_spec (safeName name) used 2
    rw [heq]
    exact isIdentifier_numbered hbase n
  · exact hbase

/-! ## Tables of identifiers -/

namespace Names

/-- All names that have been given are identifiers. -/
def Spelled (names : Names) : Prop := ∀ name ∈ names.used, isIdentifier name

variable {names : Names} {entities : Entities} {entity : Entity}

theorem spelled_empty : empty.Spelled := by
  intro name hname
  cases hname

theorem Spelled.declare (h : names.Spelled) (hentity : isIdentifier (entities.nameOf entity)) :
    (names.declare entities entity).2.Spelled := by
  rw [Names.declare]
  split
  · exact h
  · exact List.forall_mem_cons.2 ⟨isIdentifier_freshName hentity, h⟩

theorem Spelled.declareAll (h : names.Spelled) {es : List Entity}
    (hes : ∀ entity ∈ es, isIdentifier (entities.nameOf entity)) :
    (names.declareAll entities es).2.Spelled := by
  induction es generalizing names with
  | nil => exact h
  | cons entity es ih =>
      obtain ⟨hentity, hes⟩ := List.forall_mem_cons.1 hes
      exact ih (h.declare hentity) hes

theorem Spelled.refer (h : names.Spelled) (hentity : isIdentifier (entities.nameOf entity)) :
    isIdentifier (names.refer entities entity) := by
  rw [Names.refer]
  split
  · rename_i name hname
    exact h name (mem_used_of_name? hname)
  · exact isIdentifier_safeName hentity

end Names

/-! ## What occurs in a script -/

theorem newlyHoisted_subset (hoisted ids : List VarId) : newlyHoisted hoisted ids ⊆ ids := by
  induction ids generalizing hoisted with
  | nil => exact List.Subset.refl _
  | cons id ids ih =>
      rw [newlyHoisted]
      split
      · exact List.subset_cons_of_subset id (ih hoisted)
      · exact List.cons_subset_cons id (ih (id :: hoisted))

theorem mem_contents_of_varId {t : Trail Entity} {id : VarId} (h : id ∈ variablesOf (bound t)) :
    .variable id ∈ contents t := by
  obtain ⟨id' | f, hentity, hid⟩ := List.mem_filterMap.1 h
  · cases hid
    exact mem_contents_iff.2 (.inl (mem_bound_iff.1 hentity))
  · cases hid

theorem append_subset_append {a a' b b' : List Entity} (h : a ⊆ a') (h' : b ⊆ b') :
    a ++ b ⊆ a' ++ b' :=
  List.append_subset.2
    ⟨List.subset_append_of_subset_left b' h, List.subset_append_of_subset_right a' h'⟩

section

variable (entities : Entities)

/-- What is hoisted in front of a conditional occurs in it. -/
theorem hoisted_subset (hoisted : List VarId) (body : List Core.Stmt) (rest : Core.Chain) :
    (newlyHoisted hoisted (blockDeclared body ++ chainDeclared rest)).map .variable ⊆
      contents (Core.Stmt.allTrail entities body) ++ contents (rest.trail entities) := by
  intro entity hentity
  obtain ⟨id, hid, rfl⟩ := List.mem_map.1 hentity
  rcases List.mem_append.1 (newlyHoisted_subset _ _ hid) with hid | hid
  · apply List.mem_append_left
    apply mem_contents_of_varId
    rw [Core.Stmt.bound_allTrail]
    exact (blockDeclared_sublist entities body).subset hid
  · apply List.mem_append_right
    apply mem_contents_of_varId
    rw [Core.Chain.bound_trail]
    exact (chainDeclared_sublist entities rest).subset hid

mutual

/-- Nothing occurs in the script of a statement that does not occur in the statement. -/
theorem contents_ofStmt : ∀ (s : Core.Stmt) (hoisted : List VarId),
    contents (Stmt.allTrail (ofStmt entities hoisted s).1) ⊆ contents (s.trail entities)
  | .declare id init, hoisted => by
      rw [ofStmt, Core.Stmt.trail, allTrail_singleton]
      split
      · simp [Stmt.trail]
      · simp [Stmt.trail]
  | .assign _ _ _, hoisted | .print _, hoisted | .ret _, hoisted | .call _ _ _, hoisted => by
      rw [ofStmt, allTrail_singleton]
      exact List.Subset.refl _
  | .cond test body rest, hoisted => by
      have hids := hoisted_subset entities hoisted body rest
      rw [ofStmt, Core.Stmt.trail, List.append_assoc, contents_append, contents_append]
      dsimp only
      rw [allTrail_hoistFirst, Stmt.trail]
      simp only [contents_append, contents_map_bind, contents_nested]
      refine List.append_subset.2 ⟨List.subset_append_of_subset_right _ hids, ?_⟩
      exact append_subset_append (List.Subset.refl _)
        (append_subset_append (contents_ofBlock body _) (contents_ofChain rest _))
  | .loop test body, hoisted => by
      rw [ofStmt, Core.Stmt.trail]
      dsimp only
      rw [allTrail_singleton, Stmt.trail]
      simp only [contents_append, contents_nested]
      exact append_subset_append (List.Subset.refl _) (contents_ofBlock body _)
  | .each iterator collection body, hoisted => by
      have hbody := contents_ofBlock body hoisted
      rw [ofStmt, Core.Stmt.trail]
      dsimp only
      split
      · rw [allTrail_singleton, Stmt.trail]
        simp only [contents_append, contents_nested, contents_cons_bind]
        exact append_subset_append (List.Subset.refl _) (List.cons_subset_cons _ hbody)
      · rw [allTrail_singleton, Stmt.trail]
        simp only [contents_append, contents_nested, contents_cons_bind, contents_cons_use]
        refine append_subset_append (List.Subset.refl _) ?_
        simp only [List.cons_subset, List.mem_cons, true_or, true_and]
        exact List.subset_cons_of_subset _ hbody
  | .function id body, hoisted => by
      rw [ofStmt, Core.Stmt.trail]
      dsimp only
      rw [allTrail_singleton, Stmt.trail]
      simp only [contents_append, contents_nested, contents_cons_bind]
      exact List.cons_subset_cons _
        (append_subset_append (List.Subset.refl _) (contents_ofBlock body _))

theorem contents_ofBlock : ∀ (b : List Core.Stmt) (hoisted : List VarId),
    contents (Stmt.allTrail (ofBlock entities hoisted b).1) ⊆
      contents (Core.Stmt.allTrail entities b)
  | [], _ => List.Subset.refl _
  | s :: rest, hoisted => by
      rw [ofBlock, Core.Stmt.allTrail, contents_append]
      dsimp only
      rw [allTrail_append_stmts, contents_append]
      exact append_subset_append (contents_ofStmt s _) (contents_ofBlock rest _)

theorem contents_ofChain : ∀ (c : Core.Chain) (hoisted : List VarId),
    contents (Chain.trail (ofChain entities hoisted c).1) ⊆ contents (c.trail entities)
  | .finish, _ => List.Subset.refl _
  | .otherwise body, hoisted => by
      rw [ofChain, Core.Chain.trail]
      dsimp only
      rw [Chain.trail, contents_nested]
      exact contents_ofBlock body _
  | .also test body rest, hoisted => by
      rw [ofChain, Core.Chain.trail, List.append_assoc]
      dsimp only
      rw [Chain.trail]
      simp only [contents_append, contents_nested]
      exact append_subset_append (List.Subset.refl _)
        (append_subset_append (contents_ofBlock body _) (contents_ofChain rest _))

end

end

/-- Names that are identifiers in a program are identifiers in what is written out for it. -/
theorem isIdentifier_of_mem_sketch {p : Program}
    (h : ∀ entity ∈ p.occurrences, isIdentifier (p.entities.nameOf entity)) {entity : Entity}
    (hentity : entity ∈ contents (Sketch.allTrail (sketch p))) :
    isIdentifier (p.entities.nameOf entity) := by
  rw [allTrail_sketch] at hentity
  exact h entity (contents_ofBlock p.entities p.statements [] hentity)

/-- Preparing a program brings nothing new into it, and all entities keep their names. -/
theorem forall_nameOf_prepare {p : Program} {P : String → Prop} (options : Options)
    (h : ∀ entity ∈ p.occurrences, P (p.entities.nameOf entity)) :
    ∀ entity ∈ (prepare options p).1.occurrences,
      P ((prepare options p).1.entities.nameOf entity) := by
  intro entity hentity
  rw [prepare] at hentity ⊢
  split at hentity
  · rw [if_pos ‹_›]
    exact h entity ((Optimize.occurrences_program p).subset hentity)
  · rw [if_neg ‹_›]
    exact h entity hentity

theorem isIdentifier_of_prepare {p : Program} (options : Options)
    (h : ∀ entity ∈ p.occurrences, isIdentifier (p.entities.nameOf entity)) :
    ∀ entity ∈ (prepare options p).1.occurrences,
      isIdentifier ((prepare options p).1.entities.nameOf entity) :=
  forall_nameOf_prepare (P := fun name ↦ isIdentifier name) options h

end Script
end Barista
