import Barista.Proofs.Analysis.Arena
import Barista.Proofs.Scoping.Occurrence

/-!
# Entities are numbered in the order of their declarations

The sites of a program are the places that declare something, in the order in which analysis meets
them.  Each site takes the next index of its table, under the name that stands there, and is met
again as the declaration of that index in the core tree.
-/

namespace Barista
namespace Surface

inductive Site
  | variable (name : Name)
  | function (name : Name)

namespace Site

def varName? : Site → Option String
  | .variable name => some name.text
  | .function _ => none

def funName? : Site → Option String
  | .variable _ => none
  | .function name => some name.text

@[simp] theorem varName?_variable (name : Name) : (Site.variable name).varName? = some name.text :=
  rfl

@[simp] theorem varName?_function (name : Name) : (Site.function name).varName? = none := rfl

@[simp] theorem funName?_variable (name : Name) : (Site.variable name).funName? = none := rfl

@[simp] theorem funName?_function (name : Name) : (Site.function name).funName? = some name.text :=
  rfl

end Site

mutual

def Stmt.sites : Stmt → List Site
  | .declare _ name _ => [.variable name]
  | .function name params _ body =>
    (.function name :: params.map fun p ↦ .variable p.name) ++ Stmt.allSites body
  | .cond _ body rest _ => Stmt.allSites body ++ rest.sites
  | .loop _ body _ => Stmt.allSites body
  | .each iterator _ body _ => .variable iterator :: Stmt.allSites body
  | .assign _ _ _ _ | .print _ _ | .ret _ _ | .call _ _ _ => []

def Stmt.allSites : List Stmt → List Site
  | [] => []
  | s :: rest => s.sites ++ Stmt.allSites rest

def Chain.sites : Chain → List Site
  | .finish => []
  | .otherwise body => Stmt.allSites body
  | .also _ body rest => Stmt.allSites body ++ rest.sites

end

end Surface

namespace Core
namespace Entity

def varId? : Entity → Option VarId
  | .variable id => some id
  | .function _ => none

def funId? : Entity → Option FunId
  | .variable _ => none
  | .function id => some id

@[simp] theorem varId?_variable (id : VarId) : (Entity.variable id).varId? = some id := rfl

@[simp] theorem varId?_function (id : FunId) : (Entity.function id).varId? = none := rfl

@[simp] theorem funId?_variable (id : VarId) : (Entity.variable id).funId? = none := rfl

@[simp] theorem funId?_function (id : FunId) : (Entity.function id).funId? = some id := rfl

theorem mem_filterMap_varId?_iff {l : List Entity} {id : VarId} :
    id ∈ l.filterMap varId? ↔ .variable id ∈ l := by
  rw [List.mem_filterMap]
  constructor
  · rintro ⟨entity, hentity, hid⟩
    rcases entity with _ | _ <;> cases hid
    exact hentity
  · intro h
    exact ⟨.variable id, h, rfl⟩

theorem mem_filterMap_funId?_iff {l : List Entity} {id : FunId} :
    id ∈ l.filterMap funId? ↔ .function id ∈ l := by
  rw [List.mem_filterMap]
  constructor
  · rintro ⟨entity, hentity, hid⟩
    rcases entity with _ | _ <;> cases hid
    exact hentity
  · intro h
    exact ⟨.function id, h, rfl⟩

/-- Variables and functions are never the same. -/
theorem nodup_of_ids {l : List Entity} (hvars : (l.filterMap varId?).Nodup)
    (hfuns : (l.filterMap funId?).Nodup) : l.Nodup := by
  induction l with
  | nil => exact List.nodup_nil
  | cons entity l ih =>
      rcases entity with id | id
      · rw [List.filterMap_cons, varId?_variable] at hvars
        obtain ⟨hid, hvars⟩ := List.nodup_cons.1 hvars
        rw [mem_filterMap_varId?_iff] at hid
        exact List.nodup_cons.2 ⟨hid, ih hvars hfuns⟩
      · rw [List.filterMap_cons, funId?_function] at hfuns
        obtain ⟨hid, hfuns⟩ := List.nodup_cons.1 hfuns
        rw [mem_filterMap_funId?_iff] at hid
        exact List.nodup_cons.2 ⟨hid, ih hvars hfuns⟩

end Entity
end Core

namespace Analysis

open Barista.Core (VarId FunId Entity Variable Function Entities)
open Barista.Surface (Site)

/-- From one table to the next the sites have been added, and these entities declare them. -/
structure Numbers (a b : Entities) (sites : List Site) (declared : List Entity) : Prop where
  vars : b.vars.map Variable.name = a.vars.map Variable.name ++ sites.filterMap Site.varName?
  funs : b.funs.map Function.name = a.funs.map Function.name ++ sites.filterMap Site.funName?
  varIds : declared.filterMap Entity.varId? =
    (List.range' a.vars.length (sites.filterMap Site.varName?).length).map VarId.mk
  funIds : declared.filterMap Entity.funId? =
    (List.range' a.funs.length (sites.filterMap Site.funName?).length).map FunId.mk

namespace Numbers

variable {a b c : Entities} {sites sites' : List Site} {declared declared' : List Entity}

theorem length_vars (h : Numbers a b sites declared) :
    b.vars.length = a.vars.length + (sites.filterMap Site.varName?).length := by
  have hlength := congrArg List.length h.vars
  rwa [List.length_map, List.length_append, List.length_map] at hlength

theorem length_funs (h : Numbers a b sites declared) :
    b.funs.length = a.funs.length + (sites.filterMap Site.funName?).length := by
  have hlength := congrArg List.length h.funs
  rwa [List.length_map, List.length_append, List.length_map] at hlength

theorem refl (a : Entities) : Numbers a a [] [] := by
  constructor <;> simp

theorem trans (h : Numbers a b sites declared) (h' : Numbers b c sites' declared') :
    Numbers a c (sites ++ sites') (declared ++ declared') := by
  constructor
  · rw [h'.vars, h.vars, List.filterMap_append, List.append_assoc]
  · rw [h'.funs, h.funs, List.filterMap_append, List.append_assoc]
  · rw [List.filterMap_append, h.varIds, h'.varIds, h.length_vars, List.filterMap_append,
      List.length_append, ← List.map_append, ← List.range'_append_1]
  · rw [List.filterMap_append, h.funIds, h'.funIds, h.length_funs, List.filterMap_append,
      List.length_append, ← List.map_append, ← List.range'_append_1]

/-- Declaring one variable. -/
theorem addVariable (a : Entities) {v : Variable} {name : Surface.Name}
    (hname : v.name = name.text) :
    Numbers a (a.addVariable v) [.variable name] [.variable a.nextVariable] := by
  constructor
  · simp [Entities.addVariable, hname]
  · simp [Entities.addVariable]
  · simp [Entities.nextVariable]
  · rfl

end Numbers

theorem filterMap_varId?_map (ids : List VarId) :
    (ids.map Entity.variable).filterMap Entity.varId? = ids := by
  induction ids with
  | nil => rfl
  | cons id ids ih => simpa using ih

/-- Declaring a function with its parameters. -/
theorem Numbers.withFunction (a : Entities) (name : Surface.Name) (params : List Surface.Param)
    (type : Surface.TypeName) :
    Numbers a (withFunction a name params type)
      (.function name :: params.map fun p ↦ .variable p.name)
      (.function a.nextFunction :: (paramIds a params).map .variable) := by
  have hvars : (params.map fun p ↦ Site.variable p.name).filterMap Site.varName? =
      params.map fun p ↦ p.name.text := by
    rw [List.filterMap_map, ← List.filterMap_eq_map]
    rfl
  have hfuns : (params.map fun p ↦ Site.variable p.name).filterMap Site.funName? = [] := by
    rw [List.filterMap_map, List.filterMap_eq_nil_iff]
    exact fun p _ ↦ rfl
  have hids : ((paramIds a params).map Entity.variable).filterMap Entity.funId? = [] := by
    rw [List.filterMap_map, List.filterMap_eq_nil_iff]
    exact fun id _ ↦ rfl
  constructor
  · rw [List.filterMap_cons, Site.varName?_function, hvars]
    simp [Analysis.withFunction, addParamVariables, Entities.addFunction, paramVariable,
      Function.comp_def]
  · rw [List.filterMap_cons, Site.funName?_function, hfuns]
    simp [Analysis.withFunction, addParamVariables, Entities.addFunction]
  · rw [List.filterMap_cons, List.filterMap_cons, Entity.varId?_function, Site.varName?_function,
      hvars, filterMap_varId?_map, List.length_map]
    rfl
  · rw [List.filterMap_cons, List.filterMap_cons, Entity.funId?_function, Site.funName?_function,
      hfuns, hids]
    rfl

mutual

theorem numbers_of_stmt {s s' : State} (hs : s.Closed) {final : Entities}
    (hbelow : s'.entities.Below final) {result : Option Ty} {c : Core.Stmt} :
    ∀ st : Surface.Stmt, stmt result st s = .ok c s' →
      Numbers s.entities s'.entities st.sites (c.declared final)
  | .declare type name init, h => by
      cases accepts_of_stmt h with
      | declare _ _ _ _ hentities _ =>
          rw [hentities]
          exact .addVariable _ rfl
  | .function name params type body, h => by
      cases accepts_of_stmt h with
      | function _ _ hentities₁ hscope₁ hparams hbody hentities _ =>
          have hstart := hs.functionBody hentities₁ hscope₁ hparams
          have hgrows := (block_grows hstart body hbody).1
          rw [hentities] at hbelow ⊢
          have hinner := numbers_of_block hstart hbelow body hbody
          rw [entities_of_declareParams hparams, hentities₁] at hgrows hinner
          rw [Core.Stmt.declared, paramsOf_nextFunction (hgrows.trans hbelow)]
          exact (Numbers.withFunction _ _ _ _).trans hinner
  | .assign target op opSpan e, h => by
      cases accepts_of_stmt h
      exact .refl _
  | .print e span, h => by
      cases accepts_of_stmt h
      exact .refl _
  | .cond test body rest span, h => by
      cases accepts_of_stmt h with
      | cond _ _ hbody hrest =>
          have hclosed := (block_grows hs body hbody).2
          have hgrows := (chain_grows hclosed rest hrest).1
          exact (numbers_of_block hs (hgrows.trans hbelow) body hbody).trans
            (numbers_of_chain hclosed hbelow rest hrest)
  | .loop test body span, h => by
      cases accepts_of_stmt h with
      | loop _ _ hentities₁ hscope₁ hbody hentities _ =>
          rw [hentities] at hbelow ⊢
          have hinner := numbers_of_block (hs.enter hentities₁ hscope₁) hbelow body hbody
          rwa [hentities₁] at hinner
  | .each iterator collection body span, h => by
      cases accepts_of_stmt h with
      | each _ _ hentities₁ hscope₁ hbody hentities _ =>
          rw [hentities] at hbelow ⊢
          have hinner := numbers_of_block (hs.eachBody hentities₁ hscope₁) hbelow body hbody
          rw [hentities₁] at hinner
          exact (Numbers.addVariable _ rfl).trans hinner
  | .ret value span, h => by
      cases accepts_of_stmt h <;> exact .refl _
  | .call callee args openParen, h => by
      cases accepts_of_stmt h
      exact .refl _

theorem numbers_of_block {s s' : State} (hs : s.Closed) {final : Entities}
    (hbelow : s'.entities.Below final) {result : Option Ty} {b : List Core.Stmt} :
    ∀ body : List Surface.Stmt, block result body s = .ok b s' →
      Numbers s.entities s'.entities (Surface.Stmt.allSites body)
        (Core.Stmt.allDeclared final b)
  | [], h => by
      obtain ⟨rfl, rfl⟩ := block_nil_eq_ok.1 h
      exact .refl _
  | st :: rest, h => by
      obtain ⟨first, s₁, others, hfirst, hothers, rfl⟩ := block_cons_eq_ok.1 h
      have hclosed := (stmt_grows hs st hfirst).2
      have hgrows := (block_grows hclosed rest hothers).1
      exact (numbers_of_stmt hs (hgrows.trans hbelow) st hfirst).trans
        (numbers_of_block hclosed hbelow rest hothers)

theorem numbers_of_chain {s s' : State} (hs : s.Closed) {final : Entities}
    (hbelow : s'.entities.Below final) {result : Option Ty} {c : Core.Chain} :
    ∀ ch : Surface.Chain, chain result ch s = .ok c s' →
      Numbers s.entities s'.entities ch.sites (c.declared final)
  | .finish, h => by
      cases acceptsChain_of_chain h
      exact .refl _
  | .otherwise body, h => by
      cases acceptsChain_of_chain h with
      | otherwise hbody => exact numbers_of_block hs hbelow body hbody
  | .also test body rest, h => by
      cases acceptsChain_of_chain h with
      | also _ _ hbody hrest =>
          have hclosed := (block_grows hs body hbody).2
          have hgrows := (chain_grows hclosed rest hrest).1
          exact (numbers_of_block hs (hgrows.trans hbelow) body hbody).trans
            (numbers_of_chain hclosed hbelow rest hrest)

end

end Analysis
end Barista
