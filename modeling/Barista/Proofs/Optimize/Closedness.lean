import Barista.Proofs.Analysis.LexicalScope

/-!
# Declarations under optimization

A mention in an optimized program stands behind its declaration unless that was in a branch which is
left out, and then it is nowhere.
-/

namespace Barista
namespace Optimize

open Barista.Core (Entity Program)
open Scoping Scoping.Trail

/-- A mention in the optimized form of an accepted program stands behind its declaration exactly
when that was in no branch that is left out. -/
theorem bind_mem_iff_of_analyze {source : String} {p : Program} (h : analyze source = .ok p)
    {pre post : Trail Entity} {entity : Entity}
    (huse : (program p).trail = pre ++ .use entity :: post) :
    .bind entity ∈ pre ↔ entity ∉ pruned p := by
  obtain ⟨statements, s, -, hblock, hentities⟩ := block_of_analyze h
  have hthins := thins_program p
  constructor
  · intro hbind hlost
    have hnodup : (bound p.trail).Nodup := by
      rw [p.bound_trail]
      exact (Analysis.numbered_of_block hblock hentities).nodup_declared
    have hgone := hthins.bind_not_mem hnodup hlost
    rw [huse] at hgone
    exact hgone (List.mem_append_left _ hbind)
  · intro hkept
    obtain ⟨front, back, hsplit, hsees⟩ := hthins.exists_use huse
    obtain ⟨out, before, behind, hfront, hopen, -⟩ :=
      Analysis.declares_of_use hblock hentities hsplit
    exact (hsees before behind hfront hopen).resolve_left hkept

/-- Of two branches one is left out, and of their variables, mentioned behind them, one is lost. -/
theorem bind_mem_iff_of_analyze_branches :
    let x : Entity := .variable ⟨1⟩
    let z : Entity := .variable ⟨2⟩
    let front : Trail Entity := [.bind (.variable ⟨0⟩), .use (.variable ⟨0⟩), .bind z]
    ∃ p, analyze ("int y = 2\nif 1 > y * 0 + 1 \x7b\n  int x = 1\n\x7d else \x7b\n" ++
        "  int z = y\n\x7d\nprint(z)\nprint(x)") = .ok p ∧
      (program p).trail = front ++ .use z :: [.use x] ∧ pruned p = [x] ∧
      (.bind z ∈ front ↔ z ∉ pruned p) ∧ (.bind x ∈ front ++ [.use z] ↔ x ∉ pruned p) := by
  intro x z front
  refine (exists_of_toOption (P := fun p ↦ (program p).trail = front ++ .use z :: [.use x] ∧
    pruned p = [x]) ?_).imp fun p ⟨h, htrail, hpruned⟩ ↦
      ⟨h, htrail, hpruned, bind_mem_iff_of_analyze h htrail, bind_mem_iff_of_analyze h htrail⟩
  decide +kernel

/-- The variable of a branch that is never taken is mentioned behind it and declared nowhere. -/
theorem declaration_pruned :
    ∃ p, analyze "if false \x7b\n  int x = 1\n\x7d\nprint(x)" = .ok p ∧
      .use (.variable ⟨0⟩) ∈ (program p).trail ∧ .bind (.variable ⟨0⟩) ∉ (program p).trail := by
  refine exists_of_toOption ?_
  decide +kernel

end Optimize
end Barista
