import Barista.Proofs.Analysis.Arena
import Barista.Proofs.Analysis.Tracking
import Mathlib.Data.List.Forall2

/-!
# Name resolution is lexical scoping
-/

namespace Barista
namespace Analysis

open Barista.Core (VarId FunId Entity Entities)
open Scoping Scoping.Trail
open Check

/-! ## Expressions -/

/-- The scope finds every identifier of the first list as the entity in the second one. -/
abbrev Scope.FindsAll (scope : Scope) : List Surface.Name → List Entity → Prop :=
  List.Forall₂ fun name entity ↦ scope.lookup? name.text = some entity

theorem Scope.FindsAll.append {scope : Scope} {names₁ names₂ : List Surface.Name}
    {entities₁ entities₂ : List Entity} (h₁ : scope.FindsAll names₁ entities₁)
    (h₂ : scope.FindsAll names₂ entities₂) :
    scope.FindsAll (names₁ ++ names₂) (entities₁ ++ entities₂) :=
  List.rel_append h₁ h₂

mutual

theorem findsAll_of_expr {env : Env} {hint : Option Ty} {c : Core.Expr} :
    ∀ e : Surface.Expr, env.expr hint e = .ok c → env.scope.FindsAll e.names c.refs
  | .int value span, h => by
      cases Env.accepts_of_expr h
      exact .nil
  | .double value span, h => by
      cases Env.accepts_of_expr h
      exact .nil
  | .bool value span, h => by
      cases Env.accepts_of_expr h
      exact .nil
  | .string value span, h => by
      cases Env.accepts_of_expr h
      exact .nil
  | .ident name span, h => by
      cases Env.accepts_of_expr h with
      | ident hfound => exact .cons hfound .nil
  | .binary op l r span, h => by
      cases Env.accepts_of_expr h with
      | arithmetic _ hleft hright =>
          exact (findsAll_of_expr l hleft).append (findsAll_of_expr r hright)
      | logical _ hleft hright =>
          exact (findsAll_of_expr l hleft).append (findsAll_of_expr r hright)
      | comparison _ _ hleft hright =>
          exact (findsAll_of_expr l hleft).append (findsAll_of_expr r hright)
  | .unary op e span, h => by
      cases Env.accepts_of_expr h with
      | not he =>
          have hoperand := findsAll_of_expr e he
          exact hoperand
      | neg he =>
          have hoperand := findsAll_of_expr e he
          exact hoperand
  | .ternary t y n span, h => by
      cases Env.accepts_of_expr h with
      | ternary ht _ hy hn =>
          exact ((findsAll_of_expr t ht).append (findsAll_of_expr y hy)).append
            (findsAll_of_expr n hn)
  | .call callee args openParen span, h => by
      cases Env.accepts_of_expr h with
      | call hfound _ hargs => exact .cons hfound (findsAll_of_exprs args hargs)
  | .index a i span, h => by
      cases Env.accepts_of_expr h with
      | index ha _ hi => exact (findsAll_of_expr a ha).append (findsAll_of_expr i hi)
  | .array items span, h => by
      cases Env.accepts_of_expr h with
      | array hitems => exact findsAll_of_exprs items hitems

theorem findsAll_of_exprs {env : Env} {hints : List (Option Ty)} {cs : List Core.Expr} :
    ∀ es : List Surface.Expr, env.exprs hints es = .ok cs →
      env.scope.FindsAll (Surface.Expr.allNames es) (Core.Expr.allRefs cs)
  | [], h => by
      rw [Env.exprs_nil_eq_ok.1 h]
      exact .nil
  | e :: es, h => by
      obtain ⟨first, others, hfirst, hothers, rfl⟩ := Env.exprs_cons_eq_ok.1 h
      exact (findsAll_of_expr e hfirst).append (findsAll_of_exprs es hothers)

end

/-- Unless the error is not about names, one of them is in no scope. -/
def Scope.Misses (scope : Scope) (names : List Surface.Name) (e : SemanticError) : Prop :=
  e.cause.isNaming = false ∨
    ∃ name ∈ names, scope.lookup? name.text = none ∧ e = ⟨.undeclared name.text, name.span⟩

namespace Scope.Misses

variable {scope : Scope} {names names' : List Surface.Name} {e : SemanticError}

theorem mono (h : scope.Misses names e) (hsub : ∀ name ∈ names, name ∈ names') :
    scope.Misses names' e := by
  rcases h with hother | ⟨name, hname, hmissing⟩
  · exact .inl hother
  · exact .inr ⟨name, hsub name hname, hmissing⟩

theorem append_left (h : scope.Misses names e) : scope.Misses (names ++ names') e :=
  h.mono fun _ hname ↦ List.mem_append_left _ hname

theorem append_right (h : scope.Misses names' e) : scope.Misses (names ++ names') e :=
  h.mono fun _ hname ↦ List.mem_append_right _ hname

theorem blames (h : scope.Misses names e) : Blames scope (names.map .use) e := by
  rcases h with hother | ⟨name, hname, hmissing, rfl⟩
  · exact .of_not_naming hother
  · obtain ⟨pre, post, rfl⟩ := List.append_of_mem hname
    intro t ht
    refine .inr (.inl ⟨pre.map .use, name, post.map .use, by simp, rfl, ?_⟩)
    intro out other hother
    rw [declares_iff_mem_level, frames_append, run_map_use, ← declares_iff_mem_level,
      declares_map_iff] at hother
    obtain ⟨l, rfl, hl⟩ := hother
    exact ht.not_declares_of_lookup? hmissing hl

end Scope.Misses

section Checks

variable {env : Env} {e : Core.Expr} {span : Span} {err : SemanticError}

theorem isNaming_of_requireBool (h : env.requireBool e span = .error err) :
    err.cause.isNaming = false := by
  simp only [Env.requireBool] at h
  split at h <;> cases h
  rfl

theorem isNaming_of_requireNumeric (h : env.requireNumeric e span = .error err) :
    err.cause.isNaming = false := by
  simp only [Env.requireNumeric] at h
  split at h <;> cases h
  rfl

theorem isNaming_of_requireAssignable {target : Ty}
    (h : env.requireAssignable target e span = .error err) : err.cause.isNaming = false := by
  simp only [Env.requireAssignable] at h
  split at h <;> cases h
  rfl

theorem misses_of_resolveVariable {name : Surface.Name}
    (h : env.resolveVariable name.text name.span = .error err) :
    env.scope.Misses [name] err := by
  simp only [Env.resolveVariable] at h
  split at h <;> cases h
  · exact .inl rfl
  · exact .inr ⟨name, List.mem_singleton_self name, ‹_›, rfl⟩

theorem misses_of_resolveCallee {callee : Surface.Name} {count : Nat}
    (h : env.resolveCallee callee count span = .error err) :
    env.scope.Misses [callee] err := by
  simp only [Env.resolveCallee, except_bind_eq_error] at h
  rcases h with h | ⟨f, -, h⟩
  · simp only [Env.resolveFunction] at h
    split at h <;> cases h
    · exact .inl rfl
    · exact .inr ⟨callee, List.mem_singleton_self callee, ‹_›, rfl⟩
  · split at h <;> cases h
    exact .inl rfl

end Checks

theorem isNaming_of_binary {env : Env} {op : BinaryOp} {l r : Surface.Expr} {left right : Core.Expr}
    {err : SemanticError}
    (h : (if op.isArithmetic = true then do
        env.requireNumeric left l.span
        env.requireNumeric right r.span
        return .binary op left right (env.typeOf left)
      else if op.isLogical = true then do
        env.requireBool left l.span
        env.requireBool right r.span
        return .binary op left right .bool
      else return .binary op left right .bool : Except SemanticError Core.Expr) = .error err) :
    err.cause.isNaming = false := by
  split at h
  · simp only [except_bind_eq_error] at h
    rcases h with h | ⟨-, -, h | ⟨-, -, h⟩⟩
    · exact isNaming_of_requireNumeric h
    · exact isNaming_of_requireNumeric h
    · cases h
  · split at h
    · simp only [except_bind_eq_error] at h
      rcases h with h | ⟨-, -, h | ⟨-, -, h⟩⟩
      · exact isNaming_of_requireBool h
      · exact isNaming_of_requireBool h
      · cases h
    · cases h

mutual

theorem misses_of_expr {env : Env} {hint : Option Ty} {err : SemanticError} :
    ∀ e : Surface.Expr, env.expr hint e = .error err → env.scope.Misses e.names err
  | .int value span, h => by
      rw [Env.expr] at h
      cases h
  | .double value span, h => by
      rw [Env.expr] at h
      cases h
  | .bool value span, h => by
      rw [Env.expr] at h
      cases h
  | .string value span, h => by
      rw [Env.expr] at h
      cases h
  | .ident name span, h => by
      rw [Env.expr, except_bind_eq_error] at h
      rcases h with h | ⟨id, -, h⟩
      · have hname : env.resolveVariable (Surface.Name.text ⟨name, span⟩)
            (Surface.Name.span ⟨name, span⟩) = .error err := h
        exact misses_of_resolveVariable hname
      · cases h
  | .binary op l r span, h => by
      rw [Env.expr] at h
      simp only [except_bind_eq_error] at h
      rcases h with h | ⟨left, -, h | ⟨right, -, h⟩⟩
      · exact (misses_of_expr l h).append_left
      · exact (misses_of_expr r h).append_right
      · exact .inl (isNaming_of_binary h)
  | .unary .not e span, h => by
      rw [Env.expr] at h
      simp only [except_bind_eq_error] at h
      rcases h with h | ⟨operand, -, h | ⟨-, -, h⟩⟩
      · have hoperand := misses_of_expr e h
        exact hoperand
      · exact .inl (isNaming_of_requireBool h)
      · cases h
  | .unary .neg e span, h => by
      rw [Env.expr] at h
      simp only [except_bind_eq_error] at h
      rcases h with h | ⟨operand, -, h⟩
      · have hoperand := misses_of_expr e h
        exact hoperand
      · cases h
  | .ternary t y n span, h => by
      rw [Env.expr] at h
      simp only [except_bind_eq_error] at h
      rcases h with h | ⟨test, -, h | ⟨-, -, h | ⟨yes, -, h | ⟨no, -, h⟩⟩⟩⟩
      · exact (misses_of_expr t h).append_left.append_left
      · exact .inl (isNaming_of_requireBool h)
      · exact (misses_of_expr y h).append_right.append_left
      · exact (misses_of_expr n h).append_right
      · split at h <;> cases h
        exact .inl rfl
  | .call callee args openParen span, h => by
      rw [Env.expr] at h
      simp only [except_bind_eq_error] at h
      rcases h with h | ⟨f, -, h | ⟨values, -, h⟩⟩
      · exact (misses_of_resolveCallee h).append_left
      · exact (misses_of_exprs args h).mono fun _ hname ↦ List.mem_cons_of_mem _ hname
      · cases h
  | .index a i span, h => by
      rw [Env.expr] at h
      simp only [except_bind_eq_error] at h
      rcases h with h | ⟨array, -, h⟩
      · exact (misses_of_expr a h).append_left
      · split at h
        · simp only [except_bind_eq_error] at h
          rcases h with h | ⟨position, -, h⟩
          · exact (misses_of_expr i h).append_right
          · split at h <;> cases h
            exact .inl rfl
        · cases h
          exact .inl rfl
  | .array items span, h => by
      rw [Env.expr] at h
      simp only [except_bind_eq_error] at h
      rcases h with h | ⟨values, -, h⟩
      · have hitems := misses_of_exprs items h
        exact hitems
      · cases h

theorem misses_of_exprs {env : Env} {hints : List (Option Ty)} {err : SemanticError} :
    ∀ es : List Surface.Expr, env.exprs hints es = .error err →
      env.scope.Misses (Surface.Expr.allNames es) err
  | [], h => by
      rw [Env.exprs] at h
      cases h
  | e :: es, h => by
      rw [Env.exprs] at h
      simp only [except_bind_eq_error] at h
      rcases h with h | ⟨first, -, h | ⟨others, -, h⟩⟩
      · exact (misses_of_expr e h).append_left
      · exact (misses_of_exprs es h).append_right
      · cases h

end

theorem misses_of_condition {env : Env} {e : Surface.Expr} {err : SemanticError}
    (h : env.condition e = .error err) : env.scope.Misses e.names err := by
  simp only [Env.condition, except_bind_eq_error] at h
  rcases h with h | ⟨test, -, h | ⟨-, -, h⟩⟩
  · exact misses_of_expr e h
  · exact .inl (isNaming_of_requireBool h)
  · cases h

/-! ## Accepted statements -/

theorem advances_expr {s : State} {hint : Option Ty} {e : Surface.Expr} {c : Core.Expr}
    (h : s.env.expr hint e = .ok c) :
    Advances s.scope s.scope (e.names.map .use) (c.refs.map .use) := by
  have hfinds : s.scope.FindsAll e.names c.refs := findsAll_of_expr e h
  exact .uses hfinds

theorem advances_declareParams {params : List Surface.Param} {ids : List VarId} {s s' : State}
    {u : Unit} (h : declareParams params ids s = .ok u s') (hlength : ids.length = params.length) :
    Advances s.scope s'.scope ((params.map Surface.Param.name).map .bind)
      ((ids.map .variable).map .bind) := by
  induction params generalizing ids s with
  | nil =>
      obtain rfl := List.length_eq_zero_iff.1 hlength
      rw [declareParams_nil_eq_ok] at h
      subst h
      exact .refl s.scope
  | cons p ps ih =>
      obtain ⟨id, ids, rfl⟩ := List.exists_cons_of_length_eq_add_one hlength
      obtain ⟨hnew, hrest⟩ := declareParams_cons_eq_ok.1 h
      have hothers := ih hrest (by simpa using hlength)
      exact (Advances.bind _ hnew).trans hothers

theorem length_paramIds (entities : Entities) (params : List Surface.Param) :
    (paramIds entities params).length = params.length := by
  simp [paramIds]

mutual

theorem advances_of_stmt {s s' : State} (hs : s.Closed) {final : Entities}
    (hbelow : s'.entities.Below final) {result : Option Ty} {c : Core.Stmt} :
    ∀ st : Surface.Stmt, stmt result st s = .ok c s' →
      Advances s.scope s'.scope st.trail (c.trail final)
  | .declare type name init, h => by
      cases accepts_of_stmt h with
      | declare _ hvalue _ hnew _ hscope =>
          rw [hscope]
          exact (advances_expr hvalue).trans (.bind _ hnew)
  | .function name params type body, h => by
      cases accepts_of_stmt h with
      | function _ hnew hentities₁ hscope₁ hparams hbody hentities hscope =>
          have hstart := hs.functionBody hentities₁ hscope₁ hparams
          have hgrows := (block_grows hstart body hbody).1
          rw [entities_of_declareParams hparams, hentities₁] at hgrows
          rw [hentities] at hbelow
          have hinputs := advances_declareParams hparams (length_paramIds _ _)
          have hinner := hinputs.trans (advances_of_block hstart hbelow body hbody)
          rw [hscope₁] at hinner
          rw [hscope]
          rw [Core.Stmt.trail, paramsOf_nextFunction (hgrows.trans hbelow)]
          exact (Advances.bind (.function s.entities.nextFunction) hnew).trans hinner.nested
  | .assign target op opSpan e, h => by
      cases accepts_of_stmt h with
      | assign hfound _ hvalue =>
          exact (Advances.use hfound).trans (advances_expr hvalue)
  | .print e span, h => by
      cases accepts_of_stmt h with
      | print hvalue => exact advances_expr hvalue
  | .cond test body rest span, h => by
      cases accepts_of_stmt h with
      | cond htest _ hbody hrest =>
          have hclosed := (block_grows hs body hbody).2
          have hgrows := (chain_grows hclosed rest hrest).1
          exact ((advances_expr htest).trans
            (advances_of_block hs (hgrows.trans hbelow) body hbody)).trans
            (advances_of_chain hclosed hbelow rest hrest)
  | .loop test body span, h => by
      cases accepts_of_stmt h with
      | loop htest _ hentities₁ hscope₁ hbody hentities hscope =>
          rw [hentities] at hbelow
          have hinner := advances_of_block (hs.enter hentities₁ hscope₁) hbelow body hbody
          rw [hscope₁] at hinner
          rw [hscope]
          exact (advances_expr htest).trans hinner.nested
  | .each iterator collection body span, h => by
      cases accepts_of_stmt h with
      | each hvalue _ hentities₁ hscope₁ hbody hentities hscope =>
          rw [hentities] at hbelow
          have hbody' := advances_of_block (hs.eachBody hentities₁ hscope₁) hbelow body hbody
          rw [hscope₁] at hbody'
          have hiterator : Advances s.scope.enter
              (s.scope.enter.declare iterator.text (.variable s.entities.nextVariable))
              [.bind iterator] [.bind (.variable s.entities.nextVariable)] := .bind _ rfl
          rw [hscope]
          exact (advances_expr hvalue).trans (hiterator.trans hbody').nested
  | .ret value span, h => by
      cases accepts_of_stmt h with
      | stop _ => exact .refl s.scope
      | ret _ _ hvalue => exact advances_expr hvalue
  | .call callee args openParen, h => by
      cases accepts_of_stmt h with
      | call hfound _ hargs =>
          have hfinds : s.scope.FindsAll (Surface.Expr.allNames args) _ :=
            findsAll_of_exprs args hargs
          exact (Advances.use hfound).trans (.uses hfinds)

theorem advances_of_block {s s' : State} (hs : s.Closed) {final : Entities}
    (hbelow : s'.entities.Below final) {result : Option Ty} {b : List Core.Stmt} :
    ∀ body : List Surface.Stmt, block result body s = .ok b s' →
      Advances s.scope s'.scope (Surface.Stmt.allTrail body) (Core.Stmt.allTrail final b)
  | [], h => by
      obtain ⟨rfl, rfl⟩ := block_nil_eq_ok.1 h
      exact .refl _
  | st :: rest, h => by
      obtain ⟨first, s₁, others, hfirst, hothers, rfl⟩ := block_cons_eq_ok.1 h
      have hclosed := (stmt_grows hs st hfirst).2
      have hgrows := (block_grows hclosed rest hothers).1
      exact (advances_of_stmt hs (hgrows.trans hbelow) st hfirst).trans
        (advances_of_block hclosed hbelow rest hothers)

theorem advances_of_chain {s s' : State} (hs : s.Closed) {final : Entities}
    (hbelow : s'.entities.Below final) {result : Option Ty} {c : Core.Chain} :
    ∀ ch : Surface.Chain, chain result ch s = .ok c s' →
      Advances s.scope s'.scope ch.trail (c.trail final)
  | .finish, h => by
      cases acceptsChain_of_chain h
      exact .refl _
  | .otherwise body, h => by
      cases acceptsChain_of_chain h with
      | otherwise hbody => exact advances_of_block hs hbelow body hbody
  | .also test body rest, h => by
      cases acceptsChain_of_chain h with
      | also htest _ hbody hrest =>
          have hclosed := (block_grows hs body hbody).2
          have hgrows := (chain_grows hclosed rest hrest).1
          exact ((advances_expr htest).trans
            (advances_of_block hs (hgrows.trans hbelow) body hbody)).trans
            (advances_of_chain hclosed hbelow rest hrest)

end

/-! ## Rejected statements -/

theorem blames_expr {s : State} {hint : Option Ty} {e : Surface.Expr} {err : SemanticError}
    (h : s.env.expr hint e = .error err) : Blames s.scope (e.names.map .use) err := by
  have hmisses : s.scope.Misses e.names err := misses_of_expr e h
  exact hmisses.blames

theorem blames_condition {s : State} {e : Surface.Expr} {err : SemanticError}
    (h : s.env.condition e = .error err) : Blames s.scope (e.names.map .use) err := by
  have hmisses : s.scope.Misses e.names err := misses_of_condition h
  exact hmisses.blames

theorem blames_declare {result : Option Ty} {type : Surface.TypeName} {name : Surface.Name}
    {init : Surface.Expr} {s : State} {err : SemanticError}
    (h : Fails (stmt result (.declare type name init)) s err) :
    Blames s.scope (Surface.Stmt.trail (.declare type name init)) err := by
  rw [stmt] at h
  split at h
  · rw [fail_bind_fails_iff.1 h]
    exact .of_not_naming rfl
  · simp only [bind_fails_iff, within_fails_iff, within_eq_ok, addVariable_eq_ok,
      declare_fails_iff, declare_eq_ok, not_addVariable_fails, not_pure_fails] at h
    rcases h with h | ⟨value, _, ⟨hvalue, rfl⟩, h | ⟨-, _, ⟨-, rfl⟩, h | ⟨id, _, ⟨-, rfl⟩,
      ⟨hold, rfl⟩ | ⟨-, _, -, h⟩⟩⟩⟩
    · exact (blames_expr h).append_left
    · exact .of_not_naming (isNaming_of_requireAssignable h)
    · exact h.elim
    · exact .append_right (advances_expr hvalue) (.bind hold)
    · exact h.elim

theorem blames_assign {result : Option Ty} {target : Surface.Name} {op : AssignOp}
    {opSpan : Span} {e : Surface.Expr} {s : State} {err : SemanticError}
    (h : Fails (stmt result (.assign target op opSpan e)) s err) :
    Blames s.scope (Surface.Stmt.trail (.assign target op opSpan e)) err := by
  rw [stmt] at h
  simp only [assigned, bind_fails_iff, within_fails_iff, within_eq_ok, not_pure_fails,
    Env.resolveVariable_eq_ok] at h
  rcases h with (h | ⟨id, _, ⟨hfound, rfl⟩, h | ⟨v, _, ⟨-, rfl⟩, h⟩⟩) | ⟨-, -, -, h⟩
  · have hmisses : s.scope.Misses [target] err := misses_of_resolveVariable h
    exact hmisses.blames.append_left
  · cases h
  · split at h
    · rw [fail_bind_fails_iff.1 h]
      exact .of_not_naming rfl
    · simp only [bind_fails_iff, within_fails_iff, within_eq_ok] at h
      rcases h with h | ⟨value, _, ⟨hvalue, rfl⟩, h⟩
      · exact .append_right (Advances.use hfound) (blames_expr h)
      · apply Blames.of_not_naming
        split at h
        · split at h
          · rw [fail_bind_fails_iff.1 h]
            rfl
          · simp only [bind_fails_iff, within_fails_iff, not_pure_fails] at h
            rcases h with h | ⟨-, -, -, h⟩
            · exact isNaming_of_requireNumeric h
            · exact h.elim
        · simp only [bind_fails_iff, within_fails_iff, not_pure_fails] at h
          rcases h with h | ⟨-, -, -, h⟩
          · exact isNaming_of_requireAssignable h
          · exact h.elim
  · exact h.elim

theorem blames_ret {result : Option Ty} {value : Option Surface.Expr} {span : Span} {s : State}
    {err : SemanticError} (h : Fails (stmt result (.ret value span)) s err) :
    Blames s.scope (Surface.Stmt.trail (.ret value span)) err := by
  rw [stmt] at h
  simp only [bind_fails_iff, not_pure_fails] at h
  rcases h with h | ⟨-, -, -, h⟩
  · rw [returned.eq_def] at h
    split at h
    · rw [fail_fails_iff.1 h]
      exact .of_not_naming rfl
    · exact (not_pure_fails h).elim
    · rw [fail_fails_iff.1 h]
      exact .of_not_naming rfl
    · rw [fail_fails_iff.1 h]
      exact .of_not_naming rfl
    · simp only [bind_fails_iff, within_fails_iff] at h
      rcases h with h | ⟨c, _, -, h | ⟨found, _, -, h⟩⟩
      · exact blames_expr h
      · cases h
      · split at h
        · exact (not_pure_fails h).elim
        · rw [fail_fails_iff.1 h]
          exact .of_not_naming rfl
  · exact h.elim

theorem blames_call {result : Option Ty} {callee : Surface.Name} {args : List Surface.Expr}
    {openParen : Span} {s : State} {err : SemanticError}
    (h : Fails (stmt result (.call callee args openParen)) s err) :
    Blames s.scope (Surface.Stmt.trail (.call callee args openParen)) err := by
  rw [stmt] at h
  simp only [bind_fails_iff, within_fails_iff, within_eq_ok, not_pure_fails,
    Env.resolveCallee_eq_ok] at h
  rcases h with h | ⟨f, _, ⟨⟨hfound, -⟩, rfl⟩, h | ⟨values, _, -, h | ⟨-, -, -, h⟩⟩⟩
  · have hmisses : s.scope.Misses [callee] err := misses_of_resolveCallee h
    exact hmisses.blames.append_left
  · have hmisses : s.scope.Misses (Surface.Expr.allNames args) err := misses_of_exprs args h
    exact .append_right (Advances.use hfound) hmisses.blames
  · cases h
  · exact h.elim

theorem blames_declareParams {params : List Surface.Param} {ids : List VarId} {s : State}
    {err : SemanticError} (h : Fails (declareParams params ids) s err) :
    Blames s.scope ((params.map Surface.Param.name).map .bind) err := by
  induction params generalizing ids s with
  | nil =>
      cases ids <;> exact (not_pure_fails h).elim
  | cons p ps ih =>
      cases ids with
      | nil => exact (not_pure_fails h).elim
      | cons id ids =>
          rcases declareParams_cons_fails_iff.1 h with ⟨hold, rfl⟩ | ⟨hnew, h⟩
          · exact (Blames.bind hold).append_left
          · exact .append_right (Advances.bind _ hnew) (ih h)

mutual

theorem blames_of_stmt {s : State} (hs : s.Closed) {result : Option Ty} {err : SemanticError} :
    ∀ st : Surface.Stmt, Fails (stmt result st) s err → Blames s.scope st.trail err
  | .declare type name init, h => blames_declare h
  | .function name params type body, h => by
      rcases function_fails h with hvoid | ⟨hold, rfl⟩ | ⟨hnew, s₁, hentities₁, hscope₁, h⟩
      · exact .of_not_naming (by rw [hvoid]; rfl)
      · exact (Blames.bind hold).append_left
      · apply Blames.append_right (Advances.bind (.function s.entities.nextFunction) hnew)
        apply Blames.nested
        rw [← hscope₁]
        rcases h with h | ⟨s₂, hparams, h⟩
        · exact (blames_declareParams h).append_left
        · have hstart := hs.functionBody hentities₁ hscope₁ hparams
          exact .append_right (advances_declareParams hparams (length_paramIds _ _))
            (blames_of_block hstart body h)
  | .assign target op opSpan e, h => blames_assign h
  | .print e span, h => by
      rw [stmt] at h
      simp only [bind_fails_iff, within_fails_iff, not_pure_fails, and_false, exists_false,
        or_false] at h
      exact blames_expr h
  | .cond test body rest span, h => by
      rw [stmt] at h
      simp only [bind_fails_iff, within_fails_iff, within_eq_ok, Env.condition_eq_ok,
        not_pure_fails, and_false, exists_false, or_false] at h
      rcases h with h | ⟨c, _, ⟨⟨htest, -⟩, rfl⟩, h | ⟨b, s₁, hbody, h⟩⟩
      · exact (blames_condition h).append_left.append_left
      · exact (Blames.append_right (advances_expr htest) (blames_of_block hs body h)).append_left
      · have hclosed := (block_grows hs body hbody).2
        have hadvances := (advances_expr htest).trans (advances_of_block hs (.refl _) body hbody)
        exact .append_right hadvances (blames_of_chain hclosed rest h)
  | .loop test body span, h => by
      rw [stmt] at h
      simp only [bind_fails_iff, within_fails_iff, within_eq_ok, Env.condition_eq_ok, report_eq_ok,
        nested_fails_iff, not_report_fails, not_pure_fails, false_or, and_false, exists_false,
        or_false] at h
      rcases h with h | ⟨c, _, ⟨⟨htest, -⟩, rfl⟩, -, _, rfl, h⟩
      · exact (blames_condition h).append_left
      · have hclosed : State.Closed ⟨s.entities, s.scope.enter, s.log ++ [.enterLoop]⟩ :=
          hs.enter rfl rfl
        exact .append_right (advances_expr htest) (blames_of_block hclosed body h).nested
  | .each iterator collection body span, h => by
      rcases each_fails h with h | ⟨value, hvalue, htype | ⟨s₁, v, hentities₁, hscope₁, h⟩⟩
      · exact (blames_expr h).append_left
      · exact .of_not_naming (by rw [htype]; rfl)
      · have hinner := blames_of_block (hs.eachBody hentities₁ hscope₁) body h
        rw [hscope₁] at hinner
        have hiterator : Blames s.scope.enter (.bind iterator :: Surface.Stmt.allTrail body) err :=
          .append_right (Advances.bind _ rfl) hinner
        exact .append_right (advances_expr hvalue) hiterator.nested
  | .ret value span, h => blames_ret h
  | .call callee args openParen, h => blames_call h

theorem blames_of_block {s : State} (hs : s.Closed) {result : Option Ty} {err : SemanticError} :
    ∀ body : List Surface.Stmt, Fails (block result body) s err →
      Blames s.scope (Surface.Stmt.allTrail body) err
  | [], h => by
      rw [block] at h
      exact (not_pure_fails h).elim
  | st :: rest, h => by
      rw [block] at h
      simp only [bind_fails_iff, not_pure_fails, and_false, exists_false, or_false] at h
      rcases h with h | ⟨first, s₁, hfirst, h⟩
      · exact (blames_of_stmt hs st h).append_left
      · have hclosed := (stmt_grows hs st hfirst).2
        exact .append_right (advances_of_stmt hs (.refl _) st hfirst)
          (blames_of_block hclosed rest h)

theorem blames_of_chain {s : State} (hs : s.Closed) {result : Option Ty} {err : SemanticError} :
    ∀ ch : Surface.Chain, Fails (chain result ch) s err → Blames s.scope ch.trail err
  | .finish, h => by
      rw [chain] at h
      exact (not_pure_fails h).elim
  | .otherwise body, h => by
      rw [chain] at h
      simp only [bind_fails_iff, not_pure_fails, and_false, exists_false, or_false] at h
      exact blames_of_block hs body h
  | .also test body rest, h => by
      rw [chain] at h
      simp only [bind_fails_iff, within_fails_iff, within_eq_ok, Env.condition_eq_ok,
        not_pure_fails, and_false, exists_false, or_false] at h
      rcases h with h | ⟨c, _, ⟨⟨htest, -⟩, rfl⟩, h | ⟨b, s₁, hbody, h⟩⟩
      · exact (blames_condition h).append_left.append_left
      · exact (Blames.append_right (advances_expr htest) (blames_of_block hs body h)).append_left
      · have hclosed := (block_grows hs body hbody).2
        have hadvances := (advances_expr htest).trans (advances_of_block hs (.refl _) body hbody)
        exact .append_right hadvances (blames_of_chain hclosed rest h)

end

end Analysis
end Barista
