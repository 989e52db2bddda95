import Barista.Proofs.Script.Visibility

/-!
# Hoisting keeps introductions, mentions and functions

A script introduces what the program declares, each entity as often, only at another place.  It
mentions what the program refers to, in the same order; to this come the variables declared in
branches, where their declarations have become assignments.  Declarations and calls of functions
follow each other as before.
-/

namespace Barista
namespace Script

open Barista.Core (VarId FunId Entity Entities Expr)
open Scoping Scoping.Trail

/-! ## How often an entity is introduced -/

/-- What a branch declares is introduced in front of it, everything else where it stands. -/
def hoistedCount (inBranch : Bool) (declared : List VarId) (entity : Entity) : Nat :=
  if inBranch then (declared.map .variable).count entity else 0

@[simp] theorem hoistedCount_nil (inBranch : Bool) (entity : Entity) :
    hoistedCount inBranch [] entity = 0 := by
  cases inBranch <;> rfl

theorem hoistedCount_append (inBranch : Bool) (declared declared' : List VarId)
    (entity : Entity) :
    hoistedCount inBranch (declared ++ declared') entity =
      hoistedCount inBranch declared entity + hoistedCount inBranch declared' entity := by
  cases inBranch with
  | true => simp [hoistedCount]
  | false => rfl

mutual

theorem count_placedStmt (entities : Entities) (entity : Entity) :
    ∀ (s : Core.Stmt) (inBranch : Bool),
      (bound (Stmt.allTrail (placedStmt entities inBranch s))).count entity +
          hoistedCount inBranch (branchDeclared s) entity =
        (s.declared entities).count entity
  | .declare id init, inBranch => by
      cases inBranch with
      | true =>
          rw [placedStmt, allTrail_singleton]
          simp [Stmt.trail, Core.Stmt.declared, branchDeclared, hoistedCount]
      | false =>
          rw [placedStmt, allTrail_singleton]
          simp [Stmt.trail, Core.Stmt.declared, hoistedCount]
  | .function id body, inBranch => by
      have hbody := count_placedBlock entities entity body false
      have hcount : hoistedCount false (blockDeclared body) entity = 0 := rfl
      rw [placedStmt, allTrail_singleton, Stmt.trail, Core.Stmt.declared, branchDeclared.eq_def,
        hoistedCount_nil, bound_cons_bind, bound_nested, bound_append, bound_map_bind,
        List.cons_append, List.count_cons, List.count_cons, List.count_append, List.count_append]
      omega
  | .assign _ _ _, inBranch | .print _, inBranch | .ret _, inBranch | .call _ _ _, inBranch => by
      rw [placedStmt, allTrail_singleton]
      simp [Stmt.trail, Core.Stmt.declared, branchDeclared]
  | .cond test body rest, inBranch => by
      have hbody := count_placedBlock entities entity body true
      have hrest := count_placedChain entities entity rest
      rw [placedStmt, allTrail_hoistFirst, branchDeclared, Stmt.trail, Core.Stmt.declared]
      simp only [bound_append, bound_map_bind, bound_map_use, bound_nested, List.count_append,
        List.nil_append]
      cases inBranch with
      | true =>
          rw [hoistedCount_append]
          simp only [if_true, List.map_nil, List.count_nil]
          omega
      | false =>
          have hcount := hoistedCount_append true (blockDeclared body) (chainDeclared rest) entity
          have hall :
              ((blockDeclared body ++ chainDeclared rest).map Entity.variable).count entity =
                hoistedCount true (blockDeclared body ++ chainDeclared rest) entity := rfl
          have hnone : hoistedCount false (blockDeclared body ++ chainDeclared rest) entity = 0 :=
            rfl
          simp only [Bool.false_eq_true, if_false]
          omega
  | .loop test body, inBranch => by
      have hbody := count_placedBlock entities entity body false
      have hcount : hoistedCount false (blockDeclared body) entity = 0 := rfl
      rw [placedStmt, allTrail_singleton, Stmt.trail, Core.Stmt.declared, branchDeclared.eq_def,
        hoistedCount_nil, bound_append, bound_map_use, bound_nested, List.nil_append]
      omega
  | .each iterator collection body, inBranch => by
      have hbody := count_placedBlock entities entity body false
      have hcount : hoistedCount false (blockDeclared body) entity = 0 := rfl
      by_cases harray : (collection.type entities).isArray = true
      · rw [placedStmt, if_pos harray, allTrail_singleton, Stmt.trail, Core.Stmt.declared,
          branchDeclared.eq_def, hoistedCount_nil, bound_append, bound_map_use, bound_nested,
          bound_cons_bind, List.nil_append, List.count_cons, List.count_cons]
        omega
      · rw [placedStmt, if_neg harray, allTrail_singleton, Stmt.trail, Core.Stmt.declared,
          branchDeclared.eq_def, hoistedCount_nil, bound_append, bound_map_use, bound_nested,
          bound_cons_bind, bound_cons_use, bound_cons_use, List.nil_append, List.count_cons,
          List.count_cons]
        omega

theorem count_placedBlock (entities : Entities) (entity : Entity) :
    ∀ (b : List Core.Stmt) (inBranch : Bool),
      (bound (Stmt.allTrail (placedBlock entities inBranch b))).count entity +
          hoistedCount inBranch (blockDeclared b) entity =
        (Core.Stmt.allDeclared entities b).count entity
  | [], inBranch => by cases inBranch <;> rfl
  | s :: rest, inBranch => by
      have hfirst := count_placedStmt entities entity s inBranch
      have hothers := count_placedBlock entities entity rest inBranch
      rw [placedBlock, allTrail_append_stmts, bound_append, List.count_append, blockDeclared,
        hoistedCount_append, Core.Stmt.allDeclared, List.count_append]
      omega

theorem count_placedChain (entities : Entities) (entity : Entity) :
    ∀ c : Core.Chain,
      (bound (placedChain entities c).trail).count entity +
          hoistedCount true (chainDeclared c) entity =
        (c.declared entities).count entity
  | .finish => rfl
  | .otherwise body => by
      have hbody := count_placedBlock entities entity body true
      rw [placedChain, Chain.trail, bound_nested, chainDeclared, Core.Chain.declared]
      exact hbody
  | .also test body rest => by
      have hbody := count_placedBlock entities entity body true
      have hrest := count_placedChain entities entity rest
      rw [placedChain, Chain.trail, chainDeclared, Core.Chain.declared, hoistedCount_append]
      simp only [bound_append, bound_map_use, bound_nested, List.count_append, List.nil_append]
      omega

end

/-! ## What is mentioned -/

mutual

/-- What the script of a statement mentions, in order: what the statement refers to and, in a
branch, the variables that it declares, for their declarations have become assignments. -/
def mentionsOfStmt (inBranch : Bool) : Core.Stmt → List Entity
  | .declare id init => (if inBranch then [.variable id] else []) ++ init.refs
  | .assign id _ value => .variable id :: value.refs
  | .print argument => argument.refs
  | .cond test body rest => test.refs ++ (mentionsOfBlock true body ++ mentionsOfChain rest)
  | .loop test body => test.refs ++ mentionsOfBlock false body
  | .each _ collection body => collection.refs ++ mentionsOfBlock false body
  | .ret value => value.elim [] Expr.refs
  | .function _ body => mentionsOfBlock false body
  | .call callee args _ => .function callee :: Expr.allRefs args

def mentionsOfBlock (inBranch : Bool) : List Core.Stmt → List Entity
  | [] => []
  | s :: rest => mentionsOfStmt inBranch s ++ mentionsOfBlock inBranch rest

def mentionsOfChain : Core.Chain → List Entity
  | .finish => []
  | .otherwise body => mentionsOfBlock true body
  | .also test body rest => test.refs ++ (mentionsOfBlock true body ++ mentionsOfChain rest)

end

theorem allRefs_append (ls ls' : List Sketch) :
    Sketch.allRefs (ls ++ ls') = Sketch.allRefs ls ++ Sketch.allRefs ls' :=
  List.flatMap_append

theorem allRefs_cons (l : Sketch) (ls : List Sketch) :
    Sketch.allRefs (l :: ls) = l.refs ++ Sketch.allRefs ls :=
  List.flatMap_cons

/-- A block mentions nothing by being closed. -/
theorem allRefs_closed (depth : Nat) (ls : List Sketch) :
    Sketch.allRefs (ls ++ [closingLine depth]) = Sketch.allRefs ls := by
  rw [allRefs_append]
  exact List.append_nil _

theorem allRefs_sketchOfBlock_singleton (depth : Nat) (s : Stmt) :
    Sketch.allRefs (sketchOfBlock depth [s]) = Sketch.allRefs (sketchOfStmt depth s) := by
  rw [sketchOfBlock, sketchOfBlock, List.append_nil]

theorem allRefs_hoistFirst (depth : Nat) (ids : List VarId) (s : Stmt) :
    Sketch.allRefs (sketchOfBlock depth (hoistFirst ids s)) =
      Sketch.allRefs (sketchOfStmt depth s) := by
  rw [hoistFirst]
  split
  · exact allRefs_sketchOfBlock_singleton depth s
  · rw [sketchOfBlock, allRefs_append, allRefs_sketchOfBlock_singleton, sketchOfStmt, allRefs_cons,
      refs_letLine]
    rfl

mutual

theorem allRefs_placedStmt (entities : Entities) (depth : Nat) :
    ∀ (s : Core.Stmt) (inBranch : Bool),
      Sketch.allRefs (sketchOfBlock depth (placedStmt entities inBranch s)) =
        mentionsOfStmt inBranch s
  | .declare id init, inBranch => by
      rw [placedStmt, allRefs_sketchOfBlock_singleton, mentionsOfStmt]
      cases inBranch <;> simp [sketchOfStmt, Sketch.allRefs, Sketch.refs, Expr.refs]
  | .assign id op value, inBranch => by
      rw [placedStmt, allRefs_sketchOfBlock_singleton, mentionsOfStmt]
      simp [sketchOfStmt, Sketch.allRefs, Sketch.refs, Expr.refs]
  | .print argument, inBranch => by
      rw [placedStmt, allRefs_sketchOfBlock_singleton, mentionsOfStmt]
      simp [sketchOfStmt, Sketch.allRefs, Sketch.refs]
  | .cond test body rest, inBranch => by
      have hbody := allRefs_placedBlock entities (depth + 1) body true
      have hrest := allRefs_placedChain entities depth rest
      rw [placedStmt, allRefs_hoistFirst, sketchOfStmt, allRefs_cons, allRefs_append, hbody, hrest,
        mentionsOfStmt]
      simp [Sketch.refs]
  | .loop test body, inBranch => by
      have hbody := allRefs_placedBlock entities (depth + 1) body false
      rw [placedStmt, allRefs_sketchOfBlock_singleton, sketchOfStmt, allRefs_cons, allRefs_closed,
        hbody, mentionsOfStmt]
      simp [Sketch.refs]
  | .each iterator collection body, inBranch => by
      have hbody := allRefs_placedBlock entities (depth + 1) body false
      rw [placedStmt, mentionsOfStmt]
      split
      all_goals
        rw [allRefs_sketchOfBlock_singleton, sketchOfStmt, allRefs_cons, allRefs_closed, hbody]
        simp [Sketch.refs]
  | .ret none, inBranch => rfl
  | .ret (some value), inBranch => by
      rw [placedStmt, allRefs_sketchOfBlock_singleton, mentionsOfStmt]
      simp [sketchOfStmt, Sketch.allRefs, Sketch.refs]
  | .function id body, inBranch => by
      have hbody := allRefs_placedBlock entities (depth + 1) body false
      rw [placedStmt, allRefs_sketchOfBlock_singleton, sketchOfStmt, allRefs_cons, allRefs_closed,
        hbody, refs_functionLine, mentionsOfStmt]
      rfl
  | .call callee args type, inBranch => by
      rw [placedStmt, allRefs_sketchOfBlock_singleton, mentionsOfStmt]
      simp [sketchOfStmt, Sketch.allRefs, Sketch.refs, Expr.refs]

theorem allRefs_placedBlock (entities : Entities) (depth : Nat) :
    ∀ (b : List Core.Stmt) (inBranch : Bool),
      Sketch.allRefs (sketchOfBlock depth (placedBlock entities inBranch b)) =
        mentionsOfBlock inBranch b
  | [], inBranch => rfl
  | s :: rest, inBranch => by
      have hfirst := allRefs_placedStmt entities depth s inBranch
      have hothers := allRefs_placedBlock entities depth rest inBranch
      rw [placedBlock, sketchOfBlock_append, allRefs_append, hfirst, hothers, mentionsOfBlock]

theorem allRefs_placedChain (entities : Entities) (depth : Nat) : ∀ c : Core.Chain,
    Sketch.allRefs (sketchOfChain depth (placedChain entities c)) = mentionsOfChain c
  | .finish => rfl
  | .otherwise body => by
      have hbody := allRefs_placedBlock entities (depth + 1) body true
      rw [placedChain, sketchOfChain, allRefs_cons, allRefs_closed, hbody, mentionsOfChain]
      rfl
  | .also test body rest => by
      have hbody := allRefs_placedBlock entities (depth + 1) body true
      have hrest := allRefs_placedChain entities depth rest
      rw [placedChain, sketchOfChain, allRefs_cons, allRefs_append, hbody, hrest, mentionsOfChain]
      simp [Sketch.refs]

end

/-! ## The order of functions -/

/-- What a trail says about functions. -/
def functionMark? : Mark Entity → Option (Mark FunId)
  | .bind (.function f) => some (.bind f)
  | .use (.function f) => some (.use f)
  | _ => none

def functionMarks (t : Trail Entity) : Trail FunId := t.filterMap functionMark?

@[simp] theorem functionMarks_append (s t : Trail Entity) :
    functionMarks (s ++ t) = functionMarks s ++ functionMarks t :=
  List.filterMap_append

@[simp] theorem functionMarks_nested (t : Trail Entity) :
    functionMarks (nested t) = functionMarks t := by
  have h : functionMarks (nested t) = functionMarks t ++ functionMarks [.leave] :=
    functionMarks_append t [.leave]
  rw [h]
  exact List.append_nil _

@[simp] theorem functionMarks_cons_bind_variable (v : VarId) (t : Trail Entity) :
    functionMarks (.bind (.variable v) :: t) = functionMarks t := rfl

@[simp] theorem functionMarks_cons_use_variable (v : VarId) (t : Trail Entity) :
    functionMarks (.use (.variable v) :: t) = functionMarks t := rfl

@[simp] theorem functionMarks_cons_bind_function (f : FunId) (t : Trail Entity) :
    functionMarks (.bind (.function f) :: t) = .bind f :: functionMarks t := rfl

@[simp] theorem functionMarks_binds (vs : List VarId) :
    functionMarks ((vs.map .variable).map .bind) = [] := by
  induction vs with
  | nil => rfl
  | cons v vs ih => exact ih

theorem functionMark?_eq_bind {m : Mark Entity} {f : FunId} (h : functionMark? m = some (.bind f)) :
    m = .bind (.function f) := by
  rcases m with _ | _ | (_ | _) | (_ | _) <;> cases h
  rfl

theorem functionMark?_eq_use {m : Mark Entity} {f : FunId} (h : functionMark? m = some (.use f)) :
    m = .use (.function f) := by
  rcases m with _ | _ | (_ | _) | (_ | _) <;> cases h
  rfl

theorem bind_mem_functionMarks_iff {t : Trail Entity} {f : FunId} :
    .bind f ∈ functionMarks t ↔ .bind (.function f) ∈ t := by
  rw [functionMarks, List.mem_filterMap]
  constructor
  · rintro ⟨m, hm, hf⟩
    rwa [functionMark?_eq_bind hf] at hm
  · intro h
    exact ⟨_, h, rfl⟩

/-- A call among the marks of functions stands at its place in the trail. -/
theorem functionMarks_split {t : Trail Entity} {before behind : Trail FunId} {f : FunId}
    (h : functionMarks t = before ++ .use f :: behind) :
    ∃ pre post, t = pre ++ .use (.function f) :: post ∧ functionMarks pre = before := by
  obtain ⟨front, rest, rfl, hfront, hrest⟩ := List.filterMap_eq_append_iff.1 h
  obtain ⟨skipped, m, back, rfl, hskipped, hm, -⟩ := List.filterMap_eq_cons_iff.1 hrest
  refine ⟨front ++ skipped, back, ?_, ?_⟩
  · rw [functionMark?_eq_use hm, List.append_assoc]
  · have hnone : functionMarks skipped = [] := List.filterMap_eq_nil_iff.2 hskipped
    rw [functionMarks_append, hnone, List.append_nil]
    exact hfront

mutual

theorem functionMarks_placedStmt (entities : Entities) : ∀ (s : Core.Stmt) (inBranch : Bool),
    functionMarks (Stmt.allTrail (placedStmt entities inBranch s)) =
      functionMarks (s.trail entities)
  | .declare id init, inBranch => by
      have hlast : functionMarks [.bind (.variable id)] = [] := rfl
      cases inBranch with
      | true =>
          rw [placedStmt, allTrail_singleton, Core.Stmt.trail, functionMarks_append, hlast,
            List.append_nil]
          rfl
      | false =>
          rw [placedStmt, allTrail_singleton]
          rfl
  | .function id body, inBranch => by
      have hbody := functionMarks_placedBlock entities body false
      rw [placedStmt, allTrail_singleton, Stmt.trail, Core.Stmt.trail]
      simp only [functionMarks_cons_bind_function, functionMarks_nested, functionMarks_append,
        hbody]
  | .assign _ _ _, inBranch | .print _, inBranch | .ret _, inBranch | .call _ _ _, inBranch => by
      rw [placedStmt, allTrail_singleton]
      rfl
  | .cond test body rest, inBranch => by
      have hbody := functionMarks_placedBlock entities body true
      have hrest := functionMarks_placedChain entities rest
      rw [placedStmt, allTrail_hoistFirst, Stmt.trail, Core.Stmt.trail]
      simp only [functionMarks_append, functionMarks_binds, functionMarks_nested, hbody, hrest,
        List.nil_append, List.append_assoc]
  | .loop test body, inBranch => by
      have hbody := functionMarks_placedBlock entities body false
      rw [placedStmt, allTrail_singleton, Stmt.trail, Core.Stmt.trail]
      simp only [functionMarks_append, functionMarks_nested, hbody]
  | .each iterator collection body, inBranch => by
      have hbody := functionMarks_placedBlock entities body false
      by_cases harray : (collection.type entities).isArray = true
      · rw [placedStmt, if_pos harray, allTrail_singleton, Stmt.trail, Core.Stmt.trail]
        simp only [functionMarks_append, functionMarks_nested, functionMarks_cons_bind_variable,
          hbody]
      · rw [placedStmt, if_neg harray, allTrail_singleton, Stmt.trail, Core.Stmt.trail]
        simp only [functionMarks_append, functionMarks_nested, functionMarks_cons_bind_variable,
          functionMarks_cons_use_variable, hbody]

theorem functionMarks_placedBlock (entities : Entities) :
    ∀ (b : List Core.Stmt) (inBranch : Bool),
      functionMarks (Stmt.allTrail (placedBlock entities inBranch b)) =
        functionMarks (Core.Stmt.allTrail entities b)
  | [], inBranch => rfl
  | s :: rest, inBranch => by
      rw [placedBlock, allTrail_append_stmts, functionMarks_append, Core.Stmt.allTrail,
        functionMarks_append, functionMarks_placedStmt entities s,
        functionMarks_placedBlock entities rest]

theorem functionMarks_placedChain (entities : Entities) : ∀ c : Core.Chain,
    functionMarks (placedChain entities c).trail = functionMarks (c.trail entities)
  | .finish => rfl
  | .otherwise body => by
      rw [placedChain, Chain.trail, functionMarks_nested, Core.Chain.trail,
        functionMarks_placedBlock entities body]
  | .also test body rest => by
      have hbody := functionMarks_placedBlock entities body true
      have hrest := functionMarks_placedChain entities rest
      rw [placedChain, Chain.trail, Core.Chain.trail]
      simp only [functionMarks_append, functionMarks_nested, hbody, hrest, List.append_assoc]

end

end Script
end Barista
