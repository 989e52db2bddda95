import Barista.Proofs.Analysis.Arena
import Barista.Proofs.Optimize.Occurrence
import Barista.Proofs.Scoping.Thinning

/-!
# What optimization leaves out

Branches are no scopes, so what a branch declares can be seen behind the conditional, also when the
branch is never taken and left out.  Seen as a trail, a program is thinned: of what it declares and
mentions some is gone, and nothing is new, doubled or moved.
-/

namespace Barista
namespace Core

open Scoping Scoping.Trail

variable (entities : Entities)

mutual

theorem Stmt.closes_trail : ∀ s : Stmt, Closes (s.trail entities)
  | .declare id init => (Closes.uses _).append (.singleton rfl)
  | .function id body => by
      have hbody := Stmt.closes_allTrail body
      exact (Closes.singleton rfl).append ((Closes.binds _).append hbody).nested
  | .assign id op value => (Closes.singleton rfl).append (.uses _)
  | .print argument => .uses _
  | .cond test body rest => by
      have hbody := Stmt.closes_allTrail body
      have hrest := Chain.closes_trail rest
      exact ((Closes.uses _).append hbody).append hrest
  | .loop test body => by
      have hbody := Stmt.closes_allTrail body
      exact (Closes.uses _).append hbody.nested
  | .each iterator collection body => by
      have hbody := Stmt.closes_allTrail body
      exact (Closes.uses _).append ((Closes.singleton rfl).append hbody).nested
  | .ret value => .uses _
  | .call callee args type => (Closes.singleton rfl).append (.uses _)

theorem Stmt.closes_allTrail : ∀ b : List Stmt, Closes (Stmt.allTrail entities b)
  | [] => .nil
  | s :: rest => (Stmt.closes_trail s).append (Stmt.closes_allTrail rest)

theorem Chain.closes_trail : ∀ c : Chain, Closes (c.trail entities)
  | .finish => .nil
  | .otherwise body => Stmt.closes_allTrail body
  | .also test body rest => by
      have hbody := Stmt.closes_allTrail body
      have hrest := Chain.closes_trail rest
      exact ((Closes.uses _).append hbody).append hrest

end

end Core

namespace Optimize

open Barista.Core (Expr VarId Entity Entities Stmt Chain Program)
open Scoping Scoping.Trail

/-! ## Branches that are left out -/

/-- What is lost in a branch and those behind it: all that the others declare if it is always taken,
all that it declares itself if it never is. -/
def lostBranch (test : Expr) (declared pruned restDeclared restPruned : List Entity) :
    List Entity :=
  if test.bool? = some true then pruned ++ restDeclared
  else if test.bool? = some false then declared ++ restPruned
  else pruned ++ restPruned

def isEmptyArray : Expr → Bool
  | .array [] _ => true
  | _ => false

mutual

/-- The entities that are declared in branches which optimization leaves out.  Loops take nothing
with them that is seen from outside. -/
def prunedStmt (entities : Entities) : Stmt → List Entity
  | .cond test body rest =>
    lostBranch (expr test) (Stmt.allDeclared entities body) (prunedBlock entities body)
      (rest.declared entities) (prunedChain entities rest)
  | .loop test body => if (expr test).bool? = some false then [] else prunedBlock entities body
  | .each _ collection body =>
    if isEmptyArray (expr collection) then [] else prunedBlock entities body
  | .function _ body => prunedBlock entities body
  | .declare _ _ | .assign _ _ _ | .print _ | .ret _ | .call _ _ _ => []

def prunedBlock (entities : Entities) : List Stmt → List Entity
  | [] => []
  | s :: rest => prunedStmt entities s ++ prunedBlock entities rest

def prunedChain (entities : Entities) : Chain → List Entity
  | .finish => []
  | .otherwise body => prunedBlock entities body
  | .also test body rest =>
    lostBranch (expr test) (Stmt.allDeclared entities body) (prunedBlock entities body)
      (rest.declared entities) (prunedChain entities rest)

end

def pruned (p : Program) : List Entity :=
  prunedBlock p.entities p.statements

/-! ## Optimization thins the trail -/

theorem loop_eq (test : Expr) (body : List Stmt) :
    loop test body = if test.bool? = some false then [] else [.loop test body] := by
  cases test with
  | bool b => cases b <;> rfl
  | _ => rfl

theorem each_eq (iterator : VarId) (collection : Expr) (body : List Stmt) :
    each iterator collection body =
      if isEmptyArray collection then [] else [.each iterator collection body] := by
  cases collection with
  | array items type => cases items <;> rfl
  | _ => rfl

theorem branch_eq (test : Expr) (body : List Stmt) (rest : Chain) :
    branch test body rest = if test.bool? = some true then .otherwise body
      else if test.bool? = some false then rest else .also test body rest := by
  cases test with
  | bool b => cases b <;> rfl
  | _ => rfl

theorem allTrail_cond (entities : Entities) (c : Chain) :
    Stmt.allTrail entities (cond c) = c.trail entities := by
  cases c with
  | finish => rfl
  | otherwise body => rfl
  | also test body rest =>
      rw [cond, Stmt.allTrail_singleton]
      rfl

section

variable {entities : Entities}

theorem thins_refs (e : Expr) : Thins [] (e.refs.map .use) ((expr e).refs.map .use) :=
  .uses (refs_expr e)

theorem thins_assign (target : VarId) (op : AssignOp) (value : Expr) :
    Thins [] (.use (.variable target) :: value.refs.map .use)
      (Stmt.allTrail entities (assign target op (expr value))) := by
  have hkept : Thins [] (.use (.variable target) :: value.refs.map .use)
      (Stmt.allTrail entities [.assign target op (expr value)]) := by
    rw [Stmt.allTrail_singleton]
    exact .keep _ (thins_refs value)
  rw [assign.eq_def]
  split
  · rename_i id hid
    split
    · exact .dropUses (.variable target :: value.refs)
    · rw [hid] at hkept
      exact hkept
  · exact hkept

theorem thins_loop (test : Expr) {body body' : List Stmt} {lost : List Entity}
    (hbody : Thins lost (Stmt.allTrail entities body) (Stmt.allTrail entities body')) :
    Thins (if (expr test).bool? = some false then [] else lost)
      (Stmt.trail entities (.loop test body))
      (Stmt.allTrail entities (loop (expr test) body')) := by
  rw [loop_eq, Stmt.trail]
  split_ifs
  · have hscope := Thins.scope (Stmt.closes_allTrail entities body) .nil
    rw [List.append_nil] at hscope
    exact (Thins.dropUses _).append hscope
  · rw [Stmt.allTrail_singleton, Stmt.trail]
    exact (thins_refs test).append hbody.nested

theorem thins_each (iterator : VarId) (collection : Expr) {body body' : List Stmt}
    {lost : List Entity}
    (hbody : Thins lost (Stmt.allTrail entities body) (Stmt.allTrail entities body')) :
    Thins (if isEmptyArray (expr collection) then [] else lost)
      (Stmt.trail entities (.each iterator collection body))
      (Stmt.allTrail entities (each iterator (expr collection) body')) := by
  rw [each_eq, Stmt.trail]
  split_ifs
  · have hinner : Closes ([.bind (.variable iterator)] ++ Stmt.allTrail entities body) :=
      (Closes.singleton rfl).append (Stmt.closes_allTrail entities body)
    have hscope := Thins.scope hinner .nil
    rw [List.append_nil] at hscope
    exact (Thins.dropUses _).append hscope
  · rw [Stmt.allTrail_singleton, Stmt.trail]
    exact (thins_refs collection).append (Thins.keep _ hbody).nested

theorem thins_branch (test : Expr) {body body' : List Stmt} {rest rest' : Chain}
    {lost restLost : List Entity}
    (hbody : Thins lost (Stmt.allTrail entities body) (Stmt.allTrail entities body'))
    (hrest : Thins restLost (rest.trail entities) (rest'.trail entities)) :
    Thins (lostBranch (expr test) (Stmt.allDeclared entities body) lost
        (rest.declared entities) restLost)
      (test.refs.map .use ++ Stmt.allTrail entities body ++ rest.trail entities)
      ((branch (expr test) body' rest').trail entities) := by
  have htest := Thins.dropUses test.refs
  have hgone := Thins.drop (Stmt.allTrail entities body)
  have hrestGone := Thins.drop (rest.trail entities)
  rw [Stmt.bound_allTrail] at hgone
  rw [Chain.bound_trail] at hrestGone
  rw [branch_eq, lostBranch]
  split_ifs
  · have h := (htest.append hbody).append hrestGone
    rwa [List.append_nil] at h
  · exact (htest.append hgone).append hrest
  · exact ((thins_refs test).append hbody).append hrest

mutual

theorem thins_stmt : ∀ s : Stmt,
    Thins (prunedStmt entities s) (s.trail entities) (Stmt.allTrail entities (stmt s))
  | .declare target init => by
      rw [stmt, Stmt.allTrail_singleton]
      exact (thins_refs init).append (.refl _)
  | .assign target op value => by
      rw [stmt]
      exact thins_assign target op value
  | .print argument => by
      rw [stmt, Stmt.allTrail_singleton]
      exact thins_refs argument
  | .cond test body rest => by
      rw [stmt, allTrail_cond]
      exact thins_branch test (thins_block body) (thins_chain rest)
  | .loop test body => by
      rw [stmt]
      exact thins_loop test (thins_block body)
  | .each iterator collection body => by
      rw [stmt]
      exact thins_each iterator collection (thins_block body)
  | .ret none => by
      rw [stmt, Stmt.allTrail_singleton]
      exact .nil
  | .ret (some value) => by
      rw [stmt, Stmt.allTrail_singleton]
      exact thins_refs value
  | .function id body => by
      rw [stmt, Stmt.allTrail_singleton]
      have hbody := thins_block body
      exact .keep _ ((Thins.refl _).append hbody).nested
  | .call callee args type => by
      rw [stmt, Stmt.allTrail_singleton]
      exact .keep _ (.uses (allRefs_exprs args))

theorem thins_block : ∀ b : List Stmt,
    Thins (prunedBlock entities b) (Stmt.allTrail entities b) (Stmt.allTrail entities (block b))
  | [] => by
      rw [block]
      exact .nil
  | s :: rest => by
      rw [block, Stmt.allTrail_append]
      exact (thins_stmt s).append (thins_block rest)

theorem thins_chain : ∀ c : Chain,
    Thins (prunedChain entities c) (c.trail entities) ((chain c).trail entities)
  | .finish => by
      rw [chain]
      exact .nil
  | .otherwise body => by
      rw [chain]
      exact thins_block body
  | .also test body rest => by
      rw [chain]
      exact thins_branch test (thins_block body) (thins_chain rest)

end

end

theorem thins_program (p : Program) : Thins (pruned p) p.trail (program p).trail :=
  thins_block p.statements

theorem occurrences_program (p : Program) : (program p).occurrences.Sublist p.occurrences :=
  (thins_program p).contents_sublist

theorem count_declared_le (p : Program) (entity : Entity) :
    (program p).declared.count entity ≤ p.declared.count entity := by
  have hcount := (thins_program p).count_le entity
  rw [Program.bound_trail, Program.bound_trail] at hcount
  exact Nat.le_of_add_left_le hcount

/-- Optimization invents, doubles and moves nothing: entities are named in the order in which they
were, no node is added, no declaration is doubled, no index leaves the tables, and the calls and
prints that are left come in the order of the source. -/
theorem program_thins_source (p : Program) :
    (program p).namings.Sublist p.namings ∧
      (program p).nodes.length ≤ p.nodes.length ∧
      (∀ entity, p.declared.count entity ≤ 1 → (program p).declared.count entity ≤ 1) ∧
      ((∀ entity ∈ p.occurrences, p.entities.Has entity) →
        ∀ entity ∈ (program p).occurrences, (program p).entities.Has entity) ∧
      (program p).actions.Sublist p.actions := by
  have hnodes := nodes_program p
  refine ⟨hnodes.filter _, hnodes.length_le, ?_, ?_, hnodes.filter _⟩
  · intro entity honce
    exact Nat.le_trans (count_declared_le p entity) honce
  · intro hrange entity hentity
    exact hrange entity ((occurrences_program p).subset hentity)

end Optimize
end Barista
