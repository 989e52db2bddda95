import Barista.Proofs.Analysis.Numbering
import Barista.Script.Tree

/-!
# Hoisting in one pass

The translation into a script remembers which variables have been hoisted.  When no variable is
declared twice, this memory only says whether a statement stands in a branch: a declaration in a
branch becomes an assignment, and the conditional that is not in a branch itself declares, in front
of it, what all its branches declare.
-/

namespace Barista
namespace Script

open Barista.Core (VarId Entity Entities Expr)

mutual

/-- The script of a statement that stands in a branch or in none. -/
def placedStmt (entities : Entities) (inBranch : Bool) : Core.Stmt → List Stmt
  | .declare id init => [if inBranch then .assign id .set init else .declare id init]
  | .assign id op value => [.assign id op value]
  | .print argument => [.print argument]
  | .cond test body rest =>
    hoistFirst (if inBranch then [] else blockDeclared body ++ chainDeclared rest)
      (.cond test (placedBlock entities true body) (placedChain entities rest))
  | .loop test body => [.loop test (placedBlock entities false body)]
  | .each iterator collection body =>
    if (collection.type entities).isArray then
      [.elements iterator collection (placedBlock entities false body)]
    else
      [.count iterator collection (placedBlock entities false body)]
  | .ret value => [.ret value]
  | .function id body => [.function id (entities.paramsOf id) (placedBlock entities false body)]
  | .call callee args type => [.call callee args type]

def placedBlock (entities : Entities) (inBranch : Bool) : List Core.Stmt → List Stmt
  | [] => []
  | s :: rest => placedStmt entities inBranch s ++ placedBlock entities inBranch rest

def placedChain (entities : Entities) : Core.Chain → Chain
  | .finish => .finish
  | .otherwise body => .otherwise (placedBlock entities true body)
  | .also test body rest =>
    .also test (placedBlock entities true body) (placedChain entities rest)

end

/-! ## What is declared where -/

/-- The variables among declared entities. -/
abbrev variablesOf (declared : List Entity) : List VarId := declared.filterMap Entity.varId?

mutual

/-- What a statement declares for its surroundings is part of what it declares at any depth. -/
theorem branchDeclared_sublist (entities : Entities) : ∀ s : Core.Stmt,
    (branchDeclared s).Sublist (variablesOf (s.declared entities))
  | .declare id init => by
      simp [branchDeclared, Core.Stmt.declared]
  | .cond test body rest => by
      rw [branchDeclared, Core.Stmt.declared, variablesOf, List.filterMap_append]
      exact (blockDeclared_sublist entities body).append (chainDeclared_sublist entities rest)
  | .assign _ _ _ | .print _ | .loop _ _ | .each _ _ _ | .ret _ | .function _ _ | .call _ _ _ => by
      rw [branchDeclared.eq_def]
      exact List.nil_sublist _

theorem blockDeclared_sublist (entities : Entities) : ∀ b : List Core.Stmt,
    (blockDeclared b).Sublist (variablesOf (Core.Stmt.allDeclared entities b))
  | [] => List.Sublist.refl _
  | s :: rest => by
      rw [blockDeclared, Core.Stmt.allDeclared, variablesOf, List.filterMap_append]
      exact (branchDeclared_sublist entities s).append (blockDeclared_sublist entities rest)

theorem chainDeclared_sublist (entities : Entities) : ∀ c : Core.Chain,
    (chainDeclared c).Sublist (variablesOf (c.declared entities))
  | .finish => List.Sublist.refl _
  | .otherwise body => by
      have hbody := blockDeclared_sublist entities body
      exact hbody
  | .also test body rest => by
      rw [chainDeclared, Core.Chain.declared, variablesOf, List.filterMap_append]
      exact (blockDeclared_sublist entities body).append (chainDeclared_sublist entities rest)

end

theorem newlyHoisted_of_new {hoisted ids : List VarId} (hnodup : ids.Nodup)
    (hnew : ∀ id ∈ ids, id ∉ hoisted) : newlyHoisted hoisted ids = ids := by
  induction ids generalizing hoisted with
  | nil => rfl
  | cons id ids ih =>
      obtain ⟨hid, hnodup⟩ := List.nodup_cons.1 hnodup
      have hrest : newlyHoisted (id :: hoisted) ids = ids := by
        apply ih hnodup
        intro other hother hmem
        rcases List.mem_cons.1 hmem with rfl | hmem
        · exact hid hother
        · exact hnew other (List.mem_cons_of_mem _ hother) hmem
      rw [newlyHoisted, if_neg (hnew id List.mem_cons_self), hrest]

theorem newlyHoisted_of_old {hoisted ids : List VarId} (hold : ∀ id ∈ ids, id ∈ hoisted) :
    newlyHoisted hoisted ids = [] := by
  induction ids with
  | nil => rfl
  | cons id ids ih =>
      rw [newlyHoisted, if_pos (hold id List.mem_cons_self)]
      exact ih fun other hother ↦ hold other (List.mem_cons_of_mem _ hother)

/-! ## The memory of the translation -/

/-- Of the given variables, the hoisted ones are those of the branch that is being translated. -/
def Fits (inBranch : Bool) (hoisted vars own : List VarId) : Prop :=
  ∀ v ∈ vars, v ∈ hoisted ↔ inBranch = true ∧ v ∈ own

/-- Only the given variables may have been hoisted in between. -/
def Keeps (vars hoisted hoisted' : List VarId) : Prop :=
  ∀ v, v ∉ vars → (v ∈ hoisted' ↔ v ∈ hoisted)

theorem Keeps.refl (vars hoisted : List VarId) : Keeps vars hoisted hoisted :=
  fun _ _ ↦ Iff.rfl

theorem Keeps.trans {vars vars' hoisted hoisted' hoisted'' : List VarId}
    (h : Keeps vars hoisted hoisted') (h' : Keeps vars' hoisted' hoisted'') :
    Keeps (vars ++ vars') hoisted hoisted'' := by
  intro v hv
  rw [List.mem_append, not_or] at hv
  exact (h' v hv.2).trans (h v hv.1)

theorem Keeps.mono {vars vars' hoisted hoisted' : List VarId} (h : Keeps vars hoisted hoisted')
    (hsub : ∀ v ∈ vars, v ∈ vars') : Keeps vars' hoisted hoisted' :=
  fun v hv ↦ h v fun hmem ↦ hv (hsub v hmem)

namespace Fits

variable {inBranch : Bool} {hoisted hoisted' vars vars' own own' : List VarId}

/-- A part that declares nothing for its surroundings has nothing hoisted. -/
theorem not_mem (h : Fits inBranch hoisted vars []) : ∀ v ∈ vars, v ∉ hoisted := by
  intro v hv hmem
  have hnil := ((h v hv).1 hmem).2
  cases hnil

theorem body (h : ∀ v ∈ vars, v ∉ hoisted) : Fits false hoisted vars own := by
  intro v hv
  constructor
  · intro hmem
    exact (h v hv hmem).elim
  · rintro ⟨hfalse, -⟩
    cases hfalse

theorem left (h : Fits inBranch hoisted (vars ++ vars') (own ++ own'))
    (hnodup : (vars ++ vars').Nodup) (hown : own'.Sublist vars') :
    Fits inBranch hoisted vars own := by
  intro v hv
  rw [h v (List.mem_append_left _ hv), List.mem_append]
  have hother : v ∉ own' := fun hmem ↦
    (List.nodup_append.1 hnodup).2.2 v hv v (hown.subset hmem) rfl
  simp [hother]

theorem right (h : Fits inBranch hoisted (vars ++ vars') (own ++ own'))
    (hnodup : (vars ++ vars').Nodup) (hown : own.Sublist vars)
    (hkeeps : Keeps vars hoisted hoisted') : Fits inBranch hoisted' vars' own' := by
  intro v hv
  have hv' : v ∉ vars := fun hmem ↦ (List.nodup_append.1 hnodup).2.2 v hmem v hv rfl
  have hother : v ∉ own := fun hmem ↦ hv' (hown.subset hmem)
  rw [hkeeps v hv', h v (List.mem_append_right _ hv), List.mem_append]
  simp [hother]

/-- In front of a conditional: in a branch all that it declares has been hoisted, elsewhere nothing
has, and then the memory fits its branches. -/
theorem cond (h : Fits inBranch hoisted vars own) (hnodup : vars.Nodup) (hown : own.Sublist vars) :
    newlyHoisted hoisted own = (if inBranch then [] else own) ∧
      Fits true ((if inBranch then [] else own) ++ hoisted) vars own ∧
      Keeps vars hoisted ((if inBranch then [] else own) ++ hoisted) := by
  cases inBranch with
  | true =>
      have hold : ∀ v ∈ own, v ∈ hoisted := fun v hv ↦ (h v (hown.subset hv)).2 ⟨rfl, hv⟩
      exact ⟨newlyHoisted_of_old hold, h, .refl _ _⟩
  | false =>
      have hnew : ∀ v ∈ vars, v ∉ hoisted := by
        intro v hv hmem
        have hfalse := ((h v hv).1 hmem).1
        cases hfalse
      refine ⟨newlyHoisted_of_new (hnodup.sublist hown) fun v hv ↦ hnew v (hown.subset hv), ?_, ?_⟩
      · intro v hv
        simp [hnew v hv]
      · intro v hv
        have hother : v ∉ own := fun hmem ↦ hv (hown.subset hmem)
        simp [hother]

end Fits

/-- The translation of a conditional, given that of its branches. -/
theorem ofStmt_cond {entities : Entities} {hoisted ids hoisted₁ hoisted₂ : List VarId} {test : Expr}
    {body : List Core.Stmt} {rest : Core.Chain} {b : List Stmt} {c : Chain}
    (hids : newlyHoisted hoisted (blockDeclared body ++ chainDeclared rest) = ids)
    (hbody : ofBlock entities (ids ++ hoisted) body = (b, hoisted₁))
    (hrest : ofChain entities hoisted₁ rest = (c, hoisted₂)) :
    ofStmt entities hoisted (.cond test body rest) =
      (hoistFirst ids (.cond test b c), hoisted₂) := by
  simp only [ofStmt, hids, hbody, hrest]

mutual

theorem ofStmt_eq_placed (entities : Entities) : ∀ (s : Core.Stmt) {inBranch : Bool}
    {hoisted : List VarId}, (variablesOf (s.declared entities)).Nodup →
      Fits inBranch hoisted (variablesOf (s.declared entities)) (branchDeclared s) →
      ∃ hoisted', ofStmt entities hoisted s = (placedStmt entities inBranch s, hoisted') ∧
        Keeps (variablesOf (s.declared entities)) hoisted hoisted'
  | .declare id init, inBranch, hoisted, hnodup, hfits => by
      refine ⟨hoisted, ?_, .refl _ _⟩
      have hid : id ∈ hoisted ↔ inBranch = true := by
        rw [hfits id (by simp [Core.Stmt.declared]), branchDeclared]
        simp
      simp only [ofStmt, placedStmt, hid]
  | .assign _ _ _, _, hoisted, _, _ | .print _, _, hoisted, _, _ | .ret _, _, hoisted, _, _
  | .call _ _ _, _, hoisted, _, _ => ⟨hoisted, rfl, .refl _ _⟩
  | .cond test body rest, inBranch, hoisted, hnodup, hfits => by
      rw [Core.Stmt.declared, variablesOf, List.filterMap_append] at hnodup hfits ⊢
      rw [branchDeclared] at hfits
      have hown := blockDeclared_sublist entities body
      have hown' := chainDeclared_sublist entities rest
      obtain ⟨hids, hbranch, hkeeps₀⟩ := hfits.cond hnodup (hown.append hown')
      obtain ⟨hoisted₁, hbody, hkeeps₁⟩ := ofBlock_eq_placed entities body
        (List.nodup_append.1 hnodup).1 (hbranch.left hnodup hown')
      obtain ⟨hoisted₂, hrest, hkeeps₂⟩ := ofChain_eq_placed entities rest
        (List.nodup_append.1 hnodup).2.1 (hbranch.right hnodup hown hkeeps₁)
      refine ⟨hoisted₂, ?_, (hkeeps₀.trans (hkeeps₁.trans hkeeps₂)).mono ?_⟩
      · rw [ofStmt_cond hids hbody hrest, placedStmt]
      · intro v hv
        exact (List.mem_append.1 hv).elim id id
  | .loop test body, inBranch, hoisted, hnodup, hfits => by
      obtain ⟨hoisted', hbody, hkeeps⟩ := ofBlock_eq_placed entities body hnodup
        (Fits.body hfits.not_mem)
      refine ⟨hoisted', ?_, hkeeps⟩
      simp only [ofStmt, placedStmt, hbody]
  | .each iterator collection body, inBranch, hoisted, hnodup, hfits => by
      rw [Core.Stmt.declared, variablesOf, List.filterMap_cons, Entity.varId?_variable]
        at hnodup hfits ⊢
      have hfits' : Fits false hoisted (variablesOf (Core.Stmt.allDeclared entities body))
          (blockDeclared body) :=
        Fits.body fun v hv ↦ hfits.not_mem v (List.mem_cons_of_mem _ hv)
      obtain ⟨hoisted', hbody, hkeeps⟩ := ofBlock_eq_placed entities body
        (List.nodup_cons.1 hnodup).2 hfits'
      refine ⟨hoisted', ?_, hkeeps.mono fun v hv ↦ List.mem_cons_of_mem _ hv⟩
      simp only [ofStmt, placedStmt, hbody]
      split <;> rfl
  | .function id body, inBranch, hoisted, hnodup, hfits => by
      rw [Core.Stmt.declared, variablesOf, List.filterMap_append] at hnodup hfits ⊢
      have hfits' : Fits false hoisted (variablesOf (Core.Stmt.allDeclared entities body))
          (blockDeclared body) :=
        Fits.body fun v hv ↦ hfits.not_mem v (List.mem_append_right _ hv)
      obtain ⟨hoisted', hbody, hkeeps⟩ := ofBlock_eq_placed entities body
        (List.nodup_append.1 hnodup).2.1 hfits'
      refine ⟨hoisted', ?_, hkeeps.mono fun v hv ↦ List.mem_append_right _ hv⟩
      simp only [ofStmt, placedStmt, hbody]

theorem ofBlock_eq_placed (entities : Entities) : ∀ (b : List Core.Stmt) {inBranch : Bool}
    {hoisted : List VarId}, (variablesOf (Core.Stmt.allDeclared entities b)).Nodup →
      Fits inBranch hoisted (variablesOf (Core.Stmt.allDeclared entities b)) (blockDeclared b) →
      ∃ hoisted', ofBlock entities hoisted b = (placedBlock entities inBranch b, hoisted') ∧
        Keeps (variablesOf (Core.Stmt.allDeclared entities b)) hoisted hoisted'
  | [], _, hoisted, _, _ => ⟨hoisted, rfl, .refl _ _⟩
  | s :: rest, inBranch, hoisted, hnodup, hfits => by
      rw [Core.Stmt.allDeclared, variablesOf, List.filterMap_append] at hnodup hfits ⊢
      rw [blockDeclared] at hfits
      have hown := branchDeclared_sublist entities s
      have hown' := blockDeclared_sublist entities rest
      obtain ⟨hoisted₁, hfirst, hkeeps⟩ := ofStmt_eq_placed entities s
        (List.nodup_append.1 hnodup).1 (hfits.left hnodup hown')
      obtain ⟨hoisted₂, hothers, hkeeps'⟩ := ofBlock_eq_placed entities rest
        (List.nodup_append.1 hnodup).2.1 (hfits.right hnodup hown hkeeps)
      refine ⟨hoisted₂, ?_, hkeeps.trans hkeeps'⟩
      simp only [ofBlock, placedBlock, hfirst, hothers]

theorem ofChain_eq_placed (entities : Entities) : ∀ (c : Core.Chain) {hoisted : List VarId},
      (variablesOf (c.declared entities)).Nodup →
      Fits true hoisted (variablesOf (c.declared entities)) (chainDeclared c) →
      ∃ hoisted', ofChain entities hoisted c = (placedChain entities c, hoisted') ∧
        Keeps (variablesOf (c.declared entities)) hoisted hoisted'
  | .finish, hoisted, _, _ => ⟨hoisted, rfl, .refl _ _⟩
  | .otherwise body, hoisted, hnodup, hfits => by
      obtain ⟨hoisted', hbody, hkeeps⟩ := ofBlock_eq_placed entities body hnodup hfits
      refine ⟨hoisted', ?_, hkeeps⟩
      simp only [ofChain, placedChain, hbody]
  | .also test body rest, hoisted, hnodup, hfits => by
      rw [Core.Chain.declared, variablesOf, List.filterMap_append] at hnodup hfits ⊢
      rw [chainDeclared] at hfits
      have hown := blockDeclared_sublist entities body
      have hown' := chainDeclared_sublist entities rest
      obtain ⟨hoisted₁, hbody, hkeeps⟩ := ofBlock_eq_placed entities body
        (List.nodup_append.1 hnodup).1 (hfits.left hnodup hown')
      obtain ⟨hoisted₂, hrest, hkeeps'⟩ := ofChain_eq_placed entities rest
        (List.nodup_append.1 hnodup).2.1 (hfits.right hnodup hown hkeeps)
      refine ⟨hoisted₂, ?_, hkeeps.trans hkeeps'⟩
      simp only [ofChain, placedChain, hbody, hrest]

end

/-- A program that declares no variable twice is translated place by place. -/
theorem ofProgram_eq_placed {p : Core.Program} (h : (variablesOf p.declared).Nodup) :
    ofProgram p = placedBlock p.entities false p.statements := by
  have hfits : Fits false [] (variablesOf p.declared) (blockDeclared p.statements) :=
    Fits.body fun v _ hv ↦ by cases hv
  obtain ⟨hoisted, hblock, -⟩ := ofBlock_eq_placed p.entities p.statements h hfits
  rw [ofProgram, hblock]

end Script
end Barista
