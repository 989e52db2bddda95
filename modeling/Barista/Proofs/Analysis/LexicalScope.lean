import Barista.Proofs.Analysis.Numbering
import Barista.Proofs.Analysis.Resolution
import Barista.Proofs.Optimize.Pruning

/-!
# Analysis is lexical scoping

For a whole program: its entities are its declarations in order, each identifier stands for the
declaration that lexical scoping gives it, and an identifier is only ever called undeclared, or
declared already, when it is.
-/

namespace Barista
namespace Analysis

open Barista.Core (VarId FunId Entity Variable Function Entities Program)
open Barista.Surface (Site)
open Scoping Scoping.Trail

/-- The entities of a program are its declarations, in order. -/
structure Numbered (statements : List Surface.Stmt) (p : Program) : Prop where
  varNames : p.entities.vars.map Variable.name =
    (Surface.Stmt.allSites statements).filterMap Site.varName?
  funNames : p.entities.funs.map Function.name =
    (Surface.Stmt.allSites statements).filterMap Site.funName?
  varIds : p.declared.filterMap Entity.varId? =
    (List.range p.entities.vars.length).map VarId.mk
  funIds : p.declared.filterMap Entity.funId? =
    (List.range p.entities.funs.length).map FunId.mk

theorem numbered_of_block {statements : List Surface.Stmt} {p : Program} {s : State}
    (hblock : block none statements State.initial = .ok p.statements s)
    (hentities : s.entities = p.entities) : Numbered statements p := by
  have hbelow : s.entities.Below p.entities := hentities ▸ Entities.Below.refl _
  have h := numbers_of_block closed_initial hbelow statements hblock
  have hvars := h.length_vars
  have hfuns := h.length_funs
  rw [hentities] at hvars hfuns h
  have hzero : State.initial.entities.vars.length = 0 := rfl
  have hzero' : State.initial.entities.funs.length = 0 := rfl
  refine ⟨h.vars, h.funs, ?_, ?_⟩
  · rw [hvars, hzero, Nat.zero_add, List.range_eq_range']
    exact h.varIds
  · rw [hfuns, hzero', Nat.zero_add, List.range_eq_range']
    exact h.funIds

namespace Numbered

variable {statements : List Surface.Stmt} {p : Program}

theorem mem_declared_iff (h : Numbered statements p) {entity : Entity} :
    entity ∈ p.declared ↔ p.entities.Has entity := by
  rcases entity with id | id
  · rw [← Entity.mem_filterMap_varId?_iff, h.varIds]
    simp only [List.mem_map, List.mem_range, Entities.Has]
    constructor
    · rintro ⟨k, hk, rfl⟩
      exact hk
    · intro hid
      exact ⟨id.index, hid, rfl⟩
  · rw [← Entity.mem_filterMap_funId?_iff, h.funIds]
    simp only [List.mem_map, List.mem_range, Entities.Has]
    constructor
    · rintro ⟨k, hk, rfl⟩
      exact hk
    · intro hid
      exact ⟨id.index, hid, rfl⟩

theorem nodup_varIds (h : Numbered statements p) :
    (p.declared.filterMap Entity.varId?).Nodup := by
  rw [h.varIds]
  refine List.nodup_range.map ?_
  intro a b hab
  exact VarId.mk.inj hab

theorem nodup_funIds (h : Numbered statements p) :
    (p.declared.filterMap Entity.funId?).Nodup := by
  rw [h.funIds]
  refine List.nodup_range.map ?_
  intro a b hab
  exact FunId.mk.inj hab

/-- No entity is declared at two places of the tree. -/
theorem nodup_declared (h : Numbered statements p) : p.declared.Nodup :=
  Entity.nodup_of_ids h.nodup_varIds h.nodup_funIds

end Numbered

/-- Identifiers and entities belong together: mark by mark they make one trail, on which every
identifier resolves to its entity. -/
theorem linked_of_block {statements : List Surface.Stmt} {p : Program} {s : State}
    (hblock : block none statements State.initial = .ok p.statements s)
    (hentities : s.entities = p.entities) :
    ∃ links : Trail Link, links.map (Mark.map Link.name) = Surface.Stmt.allTrail statements ∧
      links.map (Mark.map Link.entity) = p.trail ∧ Lawful links := by
  have hbelow : s.entities.Below p.entities := hentities ▸ Entities.Below.refl _
  have hadvances := advances_of_block closed_initial hbelow statements hblock
  obtain ⟨links, hnames, hlinked, hfollows⟩ := hadvances.2 [] follows_empty
  exact ⟨links, hnames, hlinked, hfollows.lawful⟩

/-- What the tree mentions can be seen from there. -/
theorem declares_of_use {statements : List Surface.Stmt} {p : Program} {s : State}
    (hblock : block none statements State.initial = .ok p.statements s)
    (hentities : s.entities = p.entities) {pre post : Trail Entity} {entity : Entity}
    (huse : p.trail = pre ++ .use entity :: post) : ∃ out, Declares pre out entity := by
  obtain ⟨links, -, hlinked, hlawful⟩ := linked_of_block hblock hentities
  rw [← hlinked] at huse
  exact hlawful.declares_of_use huse

/-- Whatever stands in the tree is declared in it. -/
theorem declared_of_occurs {statements : List Surface.Stmt} {p : Program} {s : State}
    (hblock : block none statements State.initial = .ok p.statements s)
    (hentities : s.entities = p.entities) {entity : Entity} (h : entity ∈ p.occurrences) :
    entity ∈ p.declared := by
  obtain ⟨links, -, hlinked, hlawful⟩ := linked_of_block hblock hentities
  rw [Program.occurrences, ← hlinked] at h
  rw [← p.bound_trail, ← hlinked]
  exact hlawful.bound_of_contents h

/-- What lexical scoping makes of an accepted program. -/
structure LexicallyScoped (statements : List Surface.Stmt) (p : Program) : Prop where
  /-- The tables are the declarations in order, and the tree declares their indices in order. -/
  numbered : Numbered statements p
  /-- Every entry of the tables is declared by one node of the tree, and nothing else is. -/
  declared : p.declared.Nodup ∧ ∀ entity, entity ∈ p.declared ↔ p.entities.Has entity
  /-- On the way through the program no lookup in the tables misses. -/
  passes : ∀ t, Passes none (.block statements) State.initial t → t.Closed
  /-- Nor does one of anything in the tree, before and after optimization. -/
  occurs : ∀ entity ∈ p.occurrences, p.entities.Has entity
  occursOptimized : ∀ entity ∈ (Optimize.program p).occurrences,
    (Optimize.program p).entities.Has entity
  /-- Each identifier is resolved to the innermost visible declaration of its name. -/
  linked : ∃ links : Trail Link,
    links.map (Mark.map Link.name) = Surface.Stmt.allTrail statements ∧
      links.map (Mark.map Link.entity) = p.trail ∧ Lawful links

theorem lexicallyScoped_of_block {statements : List Surface.Stmt} {p : Program} {s : State}
    (hblock : block none statements State.initial = .ok p.statements s)
    (hentities : s.entities = p.entities) : LexicallyScoped statements p := by
  have hnumbered := numbered_of_block hblock hentities
  have hoccurs : ∀ entity ∈ p.occurrences, p.entities.Has entity := by
    intro entity he
    exact hnumbered.mem_declared_iff.1 (declared_of_occurs hblock hentities he)
  exact {
    numbered := hnumbered
    declared := ⟨hnumbered.nodup_declared, fun _ ↦ hnumbered.mem_declared_iff⟩
    passes := fun _ ht ↦ closed_initial.of_passes ht
    occurs := hoccurs
    occursOptimized := fun _ he ↦ hoccurs _ ((Optimize.occurrences_program p).subset he)
    linked := linked_of_block hblock hentities }

/-- Analysis resolves names by lexical scoping, and blames an identifier only for breaking it. -/
theorem analyze_lexical (statements : List Surface.Stmt) :
    match (analyze statements).1 with
    | .ok p => LexicallyScoped statements p
    | .error e => BlamesAfter [] (Surface.Stmt.allTrail statements) e := by
  cases hblock : block none statements State.initial with
  | ok core s =>
      simp only [analyze, hblock]
      have hcore : block none statements State.initial =
          .ok (Program.mk core s.entities).statements s := hblock
      exact lexicallyScoped_of_block hcore rfl
  | error e s =>
      simp only [analyze, hblock]
      have hblames := blames_of_block closed_initial statements ⟨s, hblock⟩
      exact hblames [] follows_empty

end Analysis
end Barista
