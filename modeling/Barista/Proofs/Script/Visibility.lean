import Barista.Proofs.Script.Hoisting
import Barista.Proofs.Script.Sketch

/-!
# Visible variables before and after hoisting

Branches are transparent in the language and blocks in a script.  A trail is safe when every
variable that it mentions can be seen from there.  Hoisting keeps trails safe: outside of branches
the script sees all that the program sees, and in a branch it has seen it since the front of the
outermost conditional.
-/

namespace Barista
namespace Script

open Barista.Core (VarId FunId Entity Entities Expr)
open Scoping Scoping.Trail

/-! ## Safe trails -/

/-- One of the frames holds the variable. -/
def Sees (fs : List (List Entity)) (v : VarId) : Prop :=
  ∃ frame ∈ fs, .variable v ∈ frame

/-- Behind these frames, every variable along the trail is mentioned where it can be seen. -/
def Safe (fs : List (List Entity)) (t : Trail Entity) : Prop :=
  ∀ pre v post, t = pre ++ .use (.variable v) :: post → Sees (run fs pre) v

theorem safe_append_iff {fs : List (List Entity)} {s t : Trail Entity} :
    Safe fs (s ++ t) ↔ Safe fs s ∧ Safe (run fs s) t := by
  constructor
  · intro h
    refine ⟨?_, ?_⟩
    · rintro pre v post rfl
      exact h pre v (post ++ t) (by simp)
    · rintro pre v post rfl
      have hsees := h (s ++ pre) v post (by simp)
      rwa [run_append] at hsees
  · rintro ⟨hs, ht⟩ pre v post h
    rcases List.append_eq_append_iff.1 h with ⟨mid, rfl, hmid⟩ | ⟨mid, rfl, hmid⟩
    · -- the mention stands in the second part
      rw [run_append]
      exact ht mid v post hmid
    · cases mid with
      | nil =>
          have hsees := ht [] v post hmid.symm
          simpa using hsees
      | cons m mid =>
          obtain ⟨rfl, -⟩ := List.cons.inj hmid
          exact hs pre v mid rfl

theorem safe_singleton {fs : List (List Entity)} {m : Mark Entity}
    (hm : ∀ v, m ≠ .use (.variable v)) : Safe fs [m] := by
  intro pre v post h
  have hmem : .use (.variable v) ∈ [m] := by simp [h]
  exact (hm v (List.mem_singleton.1 hmem).symm).elim

theorem safe_uses_iff {fs : List (List Entity)} {es : List Entity} :
    Safe fs (es.map .use) ↔ ∀ v, .variable v ∈ es → Sees fs v := by
  constructor
  · intro h v hv
    obtain ⟨front, back, rfl⟩ := List.append_of_mem hv
    have hsees := h (front.map .use) v (back.map .use) (by simp)
    rwa [run_map_use] at hsees
  · intro h pre v post heq
    obtain ⟨front, rest, rfl, rfl, hrest⟩ := List.map_eq_append_iff.1 heq
    obtain ⟨e, back, rfl, he, -⟩ := List.map_eq_cons_iff.1 hrest
    cases he
    rw [run_map_use]
    exact h v (by simp)

theorem safe_binds (fs : List (List Entity)) (es : List Entity) : Safe fs (es.map .bind) := by
  intro pre v post h
  have hmem : Mark.use (Entity.variable v) ∈ es.map Mark.bind := by simp [h]
  simp at hmem

theorem safe_nested_iff {fs : List (List Entity)} {t : Trail Entity} :
    Safe fs (nested t) ↔ Safe ([] :: fs) t := by
  have hsplit : nested t = [.enter] ++ t ++ [.leave] := rfl
  have henter : Safe fs [.enter] := safe_singleton fun v hv ↦ by cases hv
  rw [hsplit, safe_append_iff, safe_append_iff]
  constructor
  · intro h
    exact h.1.2
  · intro h
    exact ⟨⟨henter, h⟩, safe_singleton fun v hv ↦ by cases hv⟩

/-! ## What a trail adds to its frame -/

/-- The trail leaves the outer frames alone and adds these variables to the innermost one. -/
def Adds (t : Trail Entity) (vs : List VarId) : Prop :=
  ∀ frame outer, ∃ more, run (frame :: outer) t = (more ++ frame) :: outer ∧
    ∀ v, .variable v ∈ more ↔ v ∈ vs

namespace Adds

variable {s t : Trail Entity} {vs ws : List VarId}

theorem nil : Adds [] [] := by
  intro frame outer
  exact ⟨[], rfl, by simp⟩

theorem append (hs : Adds s vs) (ht : Adds t ws) : Adds (s ++ t) (vs ++ ws) := by
  intro frame outer
  obtain ⟨more, hmore, hvs⟩ := hs frame outer
  obtain ⟨more', hmore', hws⟩ := ht (more ++ frame) outer
  refine ⟨more' ++ more, ?_, ?_⟩
  · rw [run_append, hmore, hmore', List.append_assoc]
  · intro v
    rw [List.mem_append, List.mem_append, hvs, hws]
    exact or_comm

theorem uses (es : List Entity) : Adds (es.map .use) [] := by
  intro frame outer
  exact ⟨[], by simp, by simp⟩

theorem binds (vs : List VarId) : Adds ((vs.map .variable).map .bind) vs := by
  intro frame outer
  exact ⟨(vs.map .variable).reverse, run_map_bind _ _ _, by simp⟩

theorem bindFunction (f : FunId) : Adds [.bind (.function f)] [] := by
  intro frame outer
  exact ⟨[.function f], rfl, by simp⟩

theorem nested (h : Adds t vs) : Adds (nested t) [] := by
  intro frame outer
  obtain ⟨more, hmore, -⟩ := h [] (frame :: outer)
  refine ⟨[], ?_, by simp⟩
  have hsplit : Trail.nested t = [.enter] ++ t ++ [.leave] := rfl
  rw [hsplit, run_append, run_append]
  have henter : run (frame :: outer) [.enter] = [] :: frame :: outer := rfl
  rw [henter, hmore]
  rfl

theorem sees_iff (h : Adds t vs) {frame : List Entity} {outer : List (List Entity)} {v : VarId} :
    Sees (run (frame :: outer) t) v ↔ v ∈ vs ∨ Sees (frame :: outer) v := by
  obtain ⟨more, hmore, hvs⟩ := h frame outer
  rw [hmore, ← hvs]
  simp [Sees, or_assoc]

end Adds

/-! ## Trails that mirror each other -/

/-- Whatever can be seen from the first frames can be seen from the second ones. -/
def Covers (fs gs : List (List Entity)) : Prop :=
  ∀ v, Sees fs v → Sees gs v

theorem Sees.nested {fs : List (List Entity)} {v : VarId} (h : Sees fs v) : Sees ([] :: fs) v := by
  obtain ⟨frame, hframe, hv⟩ := h
  exact ⟨frame, List.mem_cons_of_mem _ hframe, hv⟩

theorem Covers.nested {fs gs : List (List Entity)} (h : Covers fs gs) :
    Covers ([] :: fs) ([] :: gs) := by
  rintro v ⟨frame, hframe, hv⟩
  rcases List.mem_cons.1 hframe with rfl | hframe
  · cases hv
  · exact (h v ⟨frame, hframe, hv⟩).nested

/-- Where the variables `seen` can be seen, the second trail is as safe as the first one: what the
first one adds, these are the variables `vs`, the second one adds too unless it has been seen. -/
structure Mirrors (seen vs : List VarId) (t t' : Trail Entity) : Prop where
  adds : Adds t vs
  kept : ∃ vs', Adds t' vs' ∧ ∀ v ∈ vs, v ∈ vs' ∨ v ∈ seen
  safe : ∀ frame outer frame' outer', Covers (frame :: outer) (frame' :: outer') →
    (∀ v ∈ seen, Sees (frame' :: outer') v) → Safe (frame :: outer) t →
    Safe (frame' :: outer') t'

namespace Mirrors

variable {seen vs ws : List VarId} {t t' u u' : Trail Entity}

theorem append (h : Mirrors seen vs t t') (h' : Mirrors seen ws u u') :
    Mirrors seen (vs ++ ws) (t ++ u) (t' ++ u') := by
  obtain ⟨vs', hvs', hkept⟩ := h.kept
  obtain ⟨ws', hws', hkept'⟩ := h'.kept
  refine ⟨h.adds.append h'.adds, ⟨vs' ++ ws', hvs'.append hws', ?_⟩, ?_⟩
  · intro v hv
    rcases List.mem_append.1 hv with hv | hv
    · exact (hkept v hv).imp_left fun hmem ↦ List.mem_append_left _ hmem
    · exact (hkept' v hv).imp_left fun hmem ↦ List.mem_append_right _ hmem
  · intro frame outer frame' outer' hcovers hseen hsafe
    obtain ⟨hsafe, hsafe'⟩ := safe_append_iff.1 hsafe
    refine safe_append_iff.2 ⟨h.safe frame outer frame' outer' hcovers hseen hsafe, ?_⟩
    have hcovers' : Covers (run (frame :: outer) t) (run (frame' :: outer') t') := by
      intro v hv
      rw [hvs'.sees_iff]
      rcases h.adds.sees_iff.1 hv with hv | hv
      · exact (hkept v hv).imp_right fun hmem ↦ hseen v hmem
      · exact .inr (hcovers v hv)
    have hseen' : ∀ v ∈ seen, Sees (run (frame' :: outer') t') v := by
      intro v hv
      exact hvs'.sees_iff.2 (.inr (hseen v hv))
    obtain ⟨more, hmore, -⟩ := h.adds frame outer
    obtain ⟨more', hmore', -⟩ := hvs' frame' outer'
    rw [hmore] at hcovers' hsafe'
    rw [hmore'] at hcovers' hseen' ⊢
    exact h'.safe _ _ _ _ hcovers' hseen' hsafe'

theorem nil : Mirrors seen [] [] [] :=
  ⟨Adds.nil, ⟨[], Adds.nil, fun v hv ↦ .inl hv⟩, fun _ _ _ _ _ _ _ pre v post h ↦ by simp at h⟩

theorem mono {seen' : List VarId} (h : Mirrors seen vs t t') (hsub : ∀ v ∈ seen, v ∈ seen') :
    Mirrors seen' vs t t' := by
  obtain ⟨vs', hvs', hkept⟩ := h.kept
  refine ⟨h.adds, ⟨vs', hvs', fun v hv ↦ (hkept v hv).imp_right (hsub v)⟩, ?_⟩
  intro frame outer frame' outer' hcovers hseen
  exact h.safe frame outer frame' outer' hcovers fun v hv ↦ hseen v (hsub v hv)

theorem uses (es : List Entity) : Mirrors seen [] (es.map .use) (es.map .use) := by
  refine ⟨Adds.uses es, ⟨[], Adds.uses es, fun v hv ↦ .inl hv⟩, ?_⟩
  intro frame outer frame' outer' hcovers _ hsafe
  rw [safe_uses_iff] at hsafe ⊢
  exact fun v hv ↦ hcovers v (hsafe v hv)

theorem binds (vs : List VarId) :
    Mirrors seen vs ((vs.map .variable).map .bind) ((vs.map .variable).map .bind) :=
  ⟨Adds.binds vs, ⟨vs, Adds.binds vs, fun _ hv ↦ .inl hv⟩, fun _ _ _ _ _ _ _ ↦ safe_binds _ _⟩

theorem bindFunction (f : FunId) : Mirrors seen [] [.bind (.function f)] [.bind (.function f)] :=
  ⟨Adds.bindFunction f, ⟨[], Adds.bindFunction f, fun _ hv ↦ .inl hv⟩,
    fun _ _ _ _ _ _ _ ↦ safe_binds _ [.function f]⟩

/-- Bodies of loops and functions have a scope of their own on both sides. -/
theorem nested (h : Mirrors [] vs t t') :
    Mirrors seen [] (Trail.nested t) (Trail.nested t') := by
  obtain ⟨vs', hvs', -⟩ := h.kept
  refine ⟨h.adds.nested, ⟨[], hvs'.nested, fun _ hv ↦ .inl hv⟩, ?_⟩
  intro frame outer frame' outer' hcovers _ hsafe
  rw [safe_nested_iff] at hsafe ⊢
  exact h.safe _ _ _ _ hcovers.nested (fun v hv ↦ by cases hv) hsafe

/-- A branch is transparent on the one side and a block on the other. -/
theorem branch (h : Mirrors seen vs t t') (hseen : ∀ v ∈ vs, v ∈ seen) :
    Mirrors seen vs t (Trail.nested t') := by
  obtain ⟨vs', hvs', -⟩ := h.kept
  refine ⟨h.adds, ⟨[], hvs'.nested, fun v hv ↦ .inr (hseen v hv)⟩, ?_⟩
  intro frame outer frame' outer' hcovers hseen' hsafe
  rw [safe_nested_iff]
  exact h.safe _ _ _ _ (fun v hv ↦ (hcovers v hv).nested) (fun v hv ↦ (hseen' v hv).nested) hsafe

/-- What is introduced in front has been seen behind it. -/
theorem hoist {ids : List VarId} (h : Mirrors (ids ++ seen) vs t t') :
    Mirrors seen vs t ((ids.map .variable).map .bind ++ t') := by
  obtain ⟨vs', hvs', hkept⟩ := h.kept
  refine ⟨h.adds, ⟨ids ++ vs', (Adds.binds ids).append hvs', ?_⟩, ?_⟩
  · intro v hv
    have hmem := hkept v hv
    simp only [List.mem_append] at hmem ⊢
    tauto
  · intro frame outer frame' outer' hcovers hseen hsafe
    refine safe_append_iff.2 ⟨safe_binds _ _, ?_⟩
    have hsees : ∀ v, v ∈ ids ∨ Sees (frame' :: outer') v →
        Sees (run (frame' :: outer') ((ids.map .variable).map .bind)) v :=
      fun v hv ↦ (Adds.binds ids).sees_iff.2 hv
    obtain ⟨more, hmore, -⟩ := Adds.binds ids frame' outer'
    rw [hmore] at hsees ⊢
    refine h.safe _ _ _ _ (fun v hv ↦ hsees v (.inr (hcovers v hv))) (fun v hv ↦ ?_) hsafe
    rcases List.mem_append.1 hv with hv | hv
    · exact hsees v (.inl hv)
    · exact hsees v (.inr (hseen v hv))

/-- A declaration in a branch is an assignment to a variable that has been seen. -/
theorem assign (es : List Entity) {v : VarId} (hv : v ∈ seen) :
    Mirrors seen [v] (es.map .use ++ [.bind (.variable v)]) ((.variable v :: es).map .use) := by
  have hbind : Adds [.bind (.variable v)] [v] := Adds.binds [v]
  refine ⟨(Adds.uses es).append hbind, ⟨[], Adds.uses _, ?_⟩, ?_⟩
  · intro w hw
    rw [List.mem_singleton.1 hw]
    exact .inr hv
  · intro frame outer frame' outer' hcovers hseen hsafe
    have huses := safe_uses_iff.1 (safe_append_iff.1 hsafe).1
    rw [safe_uses_iff]
    intro w hw
    rcases List.mem_cons.1 hw with hw | hw
    · cases hw
      exact hseen v hv
    · exact hcovers w (huses w hw)

/-- The head of a counting loop mentions its own variable. -/
theorem counter (v : VarId) :
    Mirrors seen [v] [.bind (.variable v)]
      [.bind (.variable v), .use (.variable v), .use (.variable v)] := by
  have hbind : Adds [.bind (.variable v)] [v] := Adds.binds [v]
  have huses : Adds [.use (.variable v), .use (.variable v)] [] :=
    Adds.uses [.variable v, .variable v]
  refine ⟨hbind, ⟨[v], hbind.append huses, fun _ hw ↦ .inl hw⟩, ?_⟩
  intro frame outer frame' outer' _ _ _
  have hsafe : Safe (run (frame' :: outer') [.bind (.variable v)])
      ([.variable v, .variable v].map .use) := by
    rw [safe_uses_iff]
    intro w hw
    have hsame : w = v := by simpa using hw
    exact hbind.sees_iff.2 (.inl (List.mem_singleton.2 hsame))
  exact safe_append_iff.2 ⟨safe_binds _ [.variable v], hsafe⟩

end Mirrors

theorem allTrail_append_stmts (a b : List Stmt) :
    Stmt.allTrail (a ++ b) = Stmt.allTrail a ++ Stmt.allTrail b := by
  induction a with
  | nil => rfl
  | cons s a ih => rw [List.cons_append, Stmt.allTrail, Stmt.allTrail, ih, List.append_assoc]

theorem allTrail_singleton (s : Stmt) : Stmt.allTrail [s] = s.trail :=
  List.append_nil _

theorem allTrail_hoistFirst (ids : List VarId) (s : Stmt) :
    Stmt.allTrail (hoistFirst ids s) = (ids.map .variable).map .bind ++ s.trail := by
  cases ids with
  | nil => simp [hoistFirst, Stmt.allTrail]
  | cons id ids => simp [hoistFirst, Stmt.allTrail, Stmt.trail]

mutual

/-- A statement in a branch relies on what the branch declares having been hoisted. -/
theorem mirrors_placedStmt (entities : Entities) : ∀ (s : Core.Stmt) (inBranch : Bool),
    Mirrors (if inBranch then branchDeclared s else []) (branchDeclared s) (s.trail entities)
      (Stmt.allTrail (placedStmt entities inBranch s))
  | .declare id init, inBranch => by
      cases inBranch with
      | true =>
          rw [placedStmt, allTrail_singleton, branchDeclared]
          exact .assign init.refs (List.mem_singleton_self id)
      | false =>
          rw [placedStmt, allTrail_singleton, branchDeclared]
          exact (Mirrors.uses init.refs).append (.binds [id])
  | .function id body, inBranch => by
      have hbody := mirrors_placedBlock entities body false
      rw [placedStmt, allTrail_singleton]
      exact (Mirrors.bindFunction id).append
        ((Mirrors.binds (entities.paramsOf id)).append hbody).nested
  | .assign id op value, inBranch => by
      rw [placedStmt, allTrail_singleton]
      exact .uses (.variable id :: value.refs)
  | .print argument, inBranch => by
      rw [placedStmt, allTrail_singleton]
      exact .uses argument.refs
  | .cond test body rest, inBranch => by
      have hbody := (mirrors_placedBlock entities body true).branch fun _ hv ↦ hv
      have hrest := mirrors_placedChain entities rest
      have hall : Mirrors (blockDeclared body ++ chainDeclared rest)
          (blockDeclared body ++ chainDeclared rest)
          (Core.Stmt.trail entities (.cond test body rest))
          (Stmt.trail
            (.cond test (placedBlock entities true body) (placedChain entities rest))) := by
        rw [Core.Stmt.trail, Stmt.trail, List.append_assoc]
        exact (Mirrors.uses test.refs).append
          ((hbody.mono fun _ hv ↦ List.mem_append_left _ hv).append
            (hrest.mono fun _ hv ↦ List.mem_append_right _ hv))
      rw [placedStmt, allTrail_hoistFirst, branchDeclared]
      cases inBranch with
      | true => exact hall
      | false => exact .hoist (hall.mono fun _ hv ↦ List.mem_append_left _ hv)
  | .loop test body, inBranch => by
      have hbody := mirrors_placedBlock entities body false
      rw [placedStmt, allTrail_singleton]
      exact (Mirrors.uses test.refs).append hbody.nested
  | .each iterator collection body, inBranch => by
      have hbody := mirrors_placedBlock entities body false
      by_cases harray : (collection.type entities).isArray = true
      · rw [placedStmt, if_pos harray, allTrail_singleton]
        exact (Mirrors.uses collection.refs).append ((Mirrors.binds [iterator]).append hbody).nested
      · rw [placedStmt, if_neg harray, allTrail_singleton]
        exact (Mirrors.uses collection.refs).append ((Mirrors.counter iterator).append hbody).nested
  | .ret value, inBranch => by
      rw [placedStmt, allTrail_singleton]
      exact .uses _
  | .call callee args type, inBranch => by
      rw [placedStmt, allTrail_singleton]
      exact .uses (.function callee :: Expr.allRefs args)

theorem mirrors_placedBlock (entities : Entities) : ∀ (b : List Core.Stmt) (inBranch : Bool),
    Mirrors (if inBranch then blockDeclared b else []) (blockDeclared b)
      (Core.Stmt.allTrail entities b) (Stmt.allTrail (placedBlock entities inBranch b))
  | [], inBranch => .nil
  | s :: rest, inBranch => by
      have hfirst := mirrors_placedStmt entities s inBranch
      have hothers := mirrors_placedBlock entities rest inBranch
      rw [placedBlock, allTrail_append_stmts, blockDeclared]
      cases inBranch with
      | true =>
          exact (hfirst.mono fun _ hv ↦ List.mem_append_left _ hv).append
            (hothers.mono fun _ hv ↦ List.mem_append_right _ hv)
      | false => exact hfirst.append hothers

theorem mirrors_placedChain (entities : Entities) : ∀ c : Core.Chain,
    Mirrors (chainDeclared c) (chainDeclared c) (c.trail entities) (placedChain entities c).trail
  | .finish => .nil
  | .otherwise body => by
      have hbody := (mirrors_placedBlock entities body true).branch fun _ hv ↦ hv
      exact hbody
  | .also test body rest => by
      have hbody := (mirrors_placedBlock entities body true).branch fun _ hv ↦ hv
      have hrest := mirrors_placedChain entities rest
      rw [chainDeclared, Core.Chain.trail, placedChain, Chain.trail, List.append_assoc]
      exact (Mirrors.uses test.refs).append
        ((hbody.mono fun _ hv ↦ List.mem_append_left _ hv).append
          (hrest.mono fun _ hv ↦ List.mem_append_right _ hv))

end

end Script
end Barista
