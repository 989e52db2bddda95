import Barista.Proofs.Analysis.Outcome

/-!
# The table of entities during analysis

Analysis only ever adds entities at the end of the table, so that an index keeps its meaning.  Every
name in scope stands for an entity of the table, and so does every parameter of a function there:
looking an entity up never misses.
-/

namespace Barista
namespace Core
namespace Entities

/-- The second table continues the first one. -/
structure Below (a b : Entities) : Prop where
  vars : a.vars <+: b.vars
  funs : a.funs <+: b.funs

/-- The table has an entry for the entity. -/
def Has (entities : Entities) : Entity → Prop
  | .variable id => id.index < entities.vars.length
  | .function id => id.index < entities.funs.length

theorem Below.refl (a : Entities) : a.Below a :=
  ⟨List.prefix_refl _, List.prefix_refl _⟩

theorem Below.trans {a b c : Entities} (hab : a.Below b) (hbc : b.Below c) : a.Below c :=
  ⟨hab.vars.trans hbc.vars, hab.funs.trans hbc.funs⟩

theorem below_addVariable (e : Entities) (v : Variable) : e.Below (e.addVariable v) :=
  ⟨List.prefix_append _ _, List.prefix_refl _⟩

theorem below_addFunction (e : Entities) (f : Function) : e.Below (e.addFunction f) :=
  ⟨List.prefix_refl _, List.prefix_append _ _⟩

theorem has_variable_iff {entities : Entities} {id : VarId} :
    entities.Has (.variable id) ↔ ∃ v, entities.findVariable? id = some v := by
  simp only [Has, findVariable?]
  constructor
  · intro h
    exact ⟨entities.vars[id.index], List.getElem?_eq_getElem h⟩
  · rintro ⟨v, h⟩
    exact (List.getElem?_eq_some_iff.1 h).1

theorem has_function_iff {entities : Entities} {id : FunId} :
    entities.Has (.function id) ↔ ∃ f, entities.findFunction? id = some f := by
  simp only [Has, findFunction?]
  constructor
  · intro h
    exact ⟨entities.funs[id.index], List.getElem?_eq_getElem h⟩
  · rintro ⟨f, h⟩
    exact (List.getElem?_eq_some_iff.1 h).1

namespace Below

variable {a b : Entities}

theorem findVariable? (h : a.Below b) {id : VarId} {v : Variable}
    (hv : a.findVariable? id = some v) : b.findVariable? id = some v := by
  obtain ⟨more, hmore⟩ := h.vars
  obtain ⟨hlt, -⟩ := List.getElem?_eq_some_iff.1 hv
  rw [Entities.findVariable?, ← hmore, List.getElem?_append_left hlt]
  exact hv

theorem findFunction? (h : a.Below b) {id : FunId} {f : Function}
    (hf : a.findFunction? id = some f) : b.findFunction? id = some f := by
  obtain ⟨more, hmore⟩ := h.funs
  obtain ⟨hlt, -⟩ := List.getElem?_eq_some_iff.1 hf
  rw [Entities.findFunction?, ← hmore, List.getElem?_append_left hlt]
  exact hf

theorem has (h : a.Below b) {entity : Entity} (he : a.Has entity) : b.Has entity := by
  rcases entity with id | id
  · obtain ⟨v, hv⟩ := has_variable_iff.1 he
    exact has_variable_iff.2 ⟨v, h.findVariable? hv⟩
  · obtain ⟨f, hf⟩ := has_function_iff.1 he
    exact has_function_iff.2 ⟨f, h.findFunction? hf⟩

theorem typeOf_eq (h : a.Below b) {id : VarId} (hid : a.Has (.variable id)) :
    b.typeOf id = a.typeOf id := by
  obtain ⟨v, hv⟩ := has_variable_iff.1 hid
  rw [typeOf, typeOf, hv, h.findVariable? hv]

theorem paramsOf_eq (h : a.Below b) {id : FunId} (hid : a.Has (.function id)) :
    b.paramsOf id = a.paramsOf id := by
  obtain ⟨f, hf⟩ := has_function_iff.1 hid
  rw [paramsOf, paramsOf, hf, h.findFunction? hf]

theorem nameOf_eq (h : a.Below b) {entity : Entity} (he : a.Has entity) :
    b.nameOf entity = a.nameOf entity := by
  rcases entity with id | id
  · obtain ⟨v, hv⟩ := has_variable_iff.1 he
    rw [nameOf, nameOf, hv, h.findVariable? hv]
  · obtain ⟨f, hf⟩ := has_function_iff.1 he
    rw [nameOf, nameOf, hf, h.findFunction? hf]

end Below
end Entities
end Core

namespace Analysis

open Barista.Core (VarId FunId Entity Variable Function Entities)

theorem below_withFunction (entities : Entities) (name : Surface.Name)
    (params : List Surface.Param) (type : Surface.TypeName) :
    entities.Below (withFunction entities name params type) :=
  ⟨List.prefix_append _ _, List.prefix_append _ _⟩

theorem findFunction?_withFunction (entities : Entities) (name : Surface.Name)
    (params : List Surface.Param) (type : Surface.TypeName) :
    (withFunction entities name params type).findFunction? entities.nextFunction =
      some ⟨name.text, type.type, paramIds entities params⟩ :=
  Entities.findFunction?_addFunction_next (addParamVariables entities params) _

/-- The parameters of a function keep their indices. -/
theorem paramsOf_nextFunction {entities final : Entities} {name : Surface.Name}
    {params : List Surface.Param} {type : Surface.TypeName}
    (h : (withFunction entities name params type).Below final) :
    final.paramsOf entities.nextFunction = paramIds entities params := by
  rw [Entities.paramsOf, h.findFunction? (findFunction?_withFunction _ _ _ _)]

theorem addParamVariables_below_withFunction (entities : Entities) (name : Surface.Name)
    (params : List Surface.Param) (type : Surface.TypeName) :
    (addParamVariables entities params).Below (withFunction entities name params type) :=
  Entities.below_addFunction _ _

/-- Whatever can be reached from the state is in its table: the names in scope and the parameters
of functions. -/
structure State.Closed (s : State) : Prop where
  found : ∀ name entity, s.scope.lookup? name = some entity → s.entities.Has entity
  params : ∀ id f, s.entities.findFunction? id = some f →
    ∀ p ∈ f.params, s.entities.Has (.variable p)

theorem lookup?_declare_eq_some {scope : Scope} {name other : String} {entity e : Entity}
    (h : (scope.declare name entity).lookup? other = some e) :
    e = entity ∨ scope.lookup? other = some e := by
  by_cases hname : other = name
  · subst hname
    rw [Scope.lookup?_declare_self] at h
    exact .inl (Option.some.inj h).symm
  · rw [Scope.lookup?_declare_of_ne _ _ hname] at h
    exact .inr h

theorem closed_initial : State.initial.Closed := by
  refine ⟨?_, ?_⟩
  · intro name entity h
    cases h
  · intro id f h
    cases h

namespace State.Closed

variable {s s' : State}

theorem enter (hs : s.Closed) (hentities : s'.entities = s.entities)
    (hscope : s'.scope = s.scope.enter) : s'.Closed := by
  refine ⟨?_, ?_⟩
  · intro name entity h
    rw [hscope, Scope.lookup?_enter] at h
    rw [hentities]
    exact hs.found name entity h
  · rw [hentities]
    exact hs.params

/-- Behind a body the old scope is back, with a table that may have grown. -/
theorem leave (hs : s.Closed) {inner : State} (hinner : inner.Closed)
    (hbelow : s.entities.Below inner.entities) (hentities : s'.entities = inner.entities)
    (hscope : s'.scope = s.scope) : s'.Closed := by
  refine ⟨?_, ?_⟩
  · intro name entity h
    rw [hscope] at h
    rw [hentities]
    exact hbelow.has (hs.found name entity h)
  · rw [hentities]
    exact hinner.params

theorem declare (hs : s.Closed) {name : String} {entity : Entity}
    (hhas : s.entities.Has entity) (hentities : s'.entities = s.entities)
    (hscope : s'.scope = s.scope.declare name entity) : s'.Closed := by
  refine ⟨?_, ?_⟩
  · intro other e h
    rw [hscope] at h
    rw [hentities]
    rcases lookup?_declare_eq_some h with rfl | h
    · exact hhas
    · exact hs.found other e h
  · rw [hentities]
    exact hs.params

theorem addVariable (hs : s.Closed) {v : Variable}
    (hentities : s'.entities = s.entities.addVariable v) (hscope : s'.scope = s.scope) :
    s'.Closed := by
  have hbelow := Entities.below_addVariable s.entities v
  refine ⟨?_, ?_⟩
  · intro name entity h
    rw [hscope] at h
    rw [hentities]
    exact hbelow.has (hs.found name entity h)
  · intro id f hf p hp
    rw [hentities] at hf ⊢
    exact hbelow.has (hs.params id f hf p hp)

end State.Closed

theorem has_nextVariable (entities : Entities) (v : Variable) :
    (entities.addVariable v).Has (.variable entities.nextVariable) :=
  Entities.has_variable_iff.2 ⟨v, Entities.findVariable?_addVariable_next entities v⟩

theorem has_nextFunction (entities : Entities) (f : Function) :
    (entities.addFunction f).Has (.function entities.nextFunction) :=
  Entities.has_function_iff.2 ⟨f, Entities.findFunction?_addFunction_next entities f⟩

theorem findVariable?_of_mem_paramIds {entities : Entities} {params : List Surface.Param}
    {id : VarId} (h : id ∈ paramIds entities params) :
    ∃ p ∈ params, (addParamVariables entities params).findVariable? id =
      some (paramVariable p) := by
  simp only [paramIds, List.mem_map, List.mem_range'_1] at h
  obtain ⟨k, ⟨hle, hlt⟩, rfl⟩ := h
  have hk : k - entities.vars.length < params.length := by omega
  refine ⟨params[k - entities.vars.length], List.getElem_mem hk, ?_⟩
  simp only [Entities.findVariable?, addParamVariables]
  rw [List.getElem?_append_right hle, List.getElem?_map, List.getElem?_eq_getElem hk]
  rfl

theorem has_of_mem_paramIds {entities : Entities} {params : List Surface.Param} {id : VarId}
    (h : id ∈ paramIds entities params) :
    (addParamVariables entities params).Has (.variable id) := by
  obtain ⟨p, -, hp⟩ := findVariable?_of_mem_paramIds h
  exact Entities.has_variable_iff.2 ⟨_, hp⟩

theorem findFunction?_addFunction {entities : Entities} {f g : Function} {id : FunId}
    (h : (entities.addFunction f).findFunction? id = some g) :
    g = f ∨ entities.findFunction? id = some g := by
  simp only [Entities.findFunction?, Entities.addFunction] at h ⊢
  rw [List.getElem?_append] at h
  split at h
  · exact .inr h
  · rw [List.getElem?_singleton] at h
    split at h
    · exact .inl (Option.some.inj h).symm
    · cases h

/-- The state in which the parameters of a function are declared. -/
theorem State.Closed.function {s s' : State} (hs : s.Closed) {name : Surface.Name}
    {params : List Surface.Param} {type : Surface.TypeName}
    (hentities : s'.entities = withFunction s.entities name params type)
    (hscope : s'.scope =
      (s.scope.declare name.text (.function s.entities.nextFunction)).enter) : s'.Closed := by
  have hbelow := below_withFunction s.entities name params type
  refine ⟨?_, ?_⟩
  · intro other e h
    rw [hscope, Scope.lookup?_enter] at h
    rw [hentities]
    rcases lookup?_declare_eq_some h with rfl | h
    · exact has_nextFunction (addParamVariables s.entities params) _
    · exact hbelow.has (hs.found other e h)
  · intro id f hf p hp
    rw [hentities] at hf ⊢
    rcases findFunction?_addFunction hf with rfl | hf
    · exact (addParamVariables_below_withFunction _ _ _ _).has (has_of_mem_paramIds hp)
    · exact hbelow.has (hs.params id f hf p hp)

theorem closed_of_declareParams {params : List Surface.Param} {ids : List VarId} {s s' : State}
    {u : Unit} (h : declareParams params ids s = .ok u s') (hs : s.Closed)
    (hids : ∀ id ∈ ids, s.entities.Has (.variable id)) : s'.Closed := by
  induction params generalizing ids s with
  | nil => cases ids <;> cases h <;> exact hs
  | cons p ps ih =>
      cases ids with
      | nil => cases h; exact hs
      | cons id ids =>
          have hrest := (declareParams_cons_eq_ok.1 h).2
          have hid := hids id List.mem_cons_self
          exact ih hrest (hs.declare hid rfl rfl) fun i hi ↦ hids i (List.mem_cons_of_mem _ hi)

/-- The state in which the body of a function is analyzed. -/
theorem State.Closed.functionBody {s s₁ s₂ : State} (hs : s.Closed) {name : Surface.Name}
    {params : List Surface.Param} {type : Surface.TypeName} {u : Unit}
    (hentities₁ : s₁.entities = withFunction s.entities name params type)
    (hscope₁ : s₁.scope =
      (s.scope.declare name.text (.function s.entities.nextFunction)).enter)
    (hparams : declareParams params (paramIds s.entities params) s₁ = .ok u s₂) :
    s₂.Closed := by
  apply closed_of_declareParams hparams (hs.function hentities₁ hscope₁)
  intro id hid
  rw [hentities₁]
  exact (addParamVariables_below_withFunction _ _ _ _).has (has_of_mem_paramIds hid)

/-- The state in which the body of a loop with an iterator is analyzed. -/
theorem State.Closed.eachBody {s s₁ : State} (hs : s.Closed) {name : String} {v : Variable}
    (hentities₁ : s₁.entities = s.entities.addVariable v)
    (hscope₁ : s₁.scope = s.scope.enter.declare name (.variable s.entities.nextVariable)) :
    s₁.Closed := by
  have hentered : State.Closed ⟨s.entities, s.scope.enter, s.log⟩ := hs.enter rfl rfl
  have hadded : State.Closed ⟨s.entities.addVariable v, s.scope.enter, s.log⟩ :=
    hentered.addVariable rfl rfl
  exact hadded.declare (has_nextVariable _ _) hentities₁ hscope₁

/-- The state behind a declaration. -/
theorem State.Closed.declareVariable {s s' : State} (hs : s.Closed) {name : String} {v : Variable}
    (hentities : s'.entities = s.entities.addVariable v)
    (hscope : s'.scope = s.scope.declare name (.variable s.entities.nextVariable)) :
    s'.Closed := by
  have hadded : State.Closed ⟨s.entities.addVariable v, s.scope, s.log⟩ := hs.addVariable rfl rfl
  exact hadded.declare (has_nextVariable _ _) hentities hscope

/-- The state behind a function, given the one behind its body. -/
theorem State.Closed.leaveFunction {s s₁ s₃ s' : State} (hs : s.Closed) {name : Surface.Name}
    {params : List Surface.Param} {type : Surface.TypeName}
    (hentities₁ : s₁.entities = withFunction s.entities name params type)
    (hbelow : s₁.entities.Below s₃.entities) (hbody : s₃.Closed)
    (hentities : s'.entities = s₃.entities)
    (hscope : s'.scope = s.scope.declare name.text (.function s.entities.nextFunction)) :
    s'.Closed := by
  refine ⟨?_, ?_⟩
  · intro other e h
    rw [hscope] at h
    rw [hentities]
    apply hbelow.has
    rw [hentities₁]
    rcases lookup?_declare_eq_some h with rfl | h
    · exact has_nextFunction (addParamVariables s.entities params) _
    · exact (below_withFunction _ _ _ _).has (hs.found other e h)
  · rw [hentities]
    exact hbody.params

mutual

/-- A statement only adds to the table, and what could be looked up before it still can. -/
theorem stmt_grows {result : Option Ty} {s s' : State} {c : Core.Stmt} (hs : s.Closed) :
    ∀ st : Surface.Stmt, stmt result st s = .ok c s' →
      s.entities.Below s'.entities ∧ s'.Closed
  | .declare type name init, h => by
      cases accepts_of_stmt h with
      | declare _ _ _ _ hentities hscope =>
          refine ⟨?_, hs.declareVariable hentities hscope⟩
          rw [hentities]
          exact Entities.below_addVariable _ _
  | .function name params type body, h => by
      cases accepts_of_stmt h with
      | function _ _ hentities₁ hscope₁ hparams hbody hentities hscope =>
          have hstart := hs.functionBody hentities₁ hscope₁ hparams
          obtain ⟨hbelow, hclosed⟩ := block_grows hstart body hbody
          rw [entities_of_declareParams hparams] at hbelow
          refine ⟨?_, hs.leaveFunction hentities₁ hbelow hclosed hentities hscope⟩
          rw [hentities]
          rw [hentities₁] at hbelow
          exact (below_withFunction _ _ _ _).trans hbelow
  | .assign target op opSpan e, h => by
      cases accepts_of_stmt h
      exact ⟨.refl _, hs⟩
  | .print e span, h => by
      cases accepts_of_stmt h
      exact ⟨.refl _, hs⟩
  | .cond test body rest span, h => by
      cases accepts_of_stmt h with
      | cond _ _ hbody hrest =>
          obtain ⟨hbelow, hclosed⟩ := block_grows hs body hbody
          obtain ⟨hbelow', hclosed'⟩ := chain_grows hclosed rest hrest
          exact ⟨hbelow.trans hbelow', hclosed'⟩
  | .loop test body span, h => by
      cases accepts_of_stmt h with
      | loop _ _ hentities₁ hscope₁ hbody hentities hscope =>
          obtain ⟨hbelow, hclosed⟩ := block_grows (hs.enter hentities₁ hscope₁) body hbody
          rw [hentities₁] at hbelow
          exact ⟨hentities ▸ hbelow, hs.leave hclosed hbelow hentities hscope⟩
  | .each iterator collection body span, h => by
      cases accepts_of_stmt h with
      | each _ _ hentities₁ hscope₁ hbody hentities hscope =>
          obtain ⟨hbelow, hclosed⟩ := block_grows (hs.eachBody hentities₁ hscope₁) body hbody
          rw [hentities₁] at hbelow
          have hbelow' := (Entities.below_addVariable s.entities _).trans hbelow
          exact ⟨hentities ▸ hbelow', hs.leave hclosed hbelow' hentities hscope⟩
  | .ret value span, h => by
      cases accepts_of_stmt h <;> exact ⟨.refl _, hs⟩
  | .call callee args openParen, h => by
      cases accepts_of_stmt h
      exact ⟨.refl _, hs⟩

theorem block_grows {result : Option Ty} {s s' : State} {b : List Core.Stmt} (hs : s.Closed) :
    ∀ body : List Surface.Stmt, block result body s = .ok b s' →
      s.entities.Below s'.entities ∧ s'.Closed
  | [], h => by
      obtain ⟨-, rfl⟩ := block_nil_eq_ok.1 h
      exact ⟨.refl _, hs⟩
  | st :: rest, h => by
      obtain ⟨first, s₁, others, hfirst, hothers, -⟩ := block_cons_eq_ok.1 h
      obtain ⟨hbelow, hclosed⟩ := stmt_grows hs st hfirst
      obtain ⟨hbelow', hclosed'⟩ := block_grows hclosed rest hothers
      exact ⟨hbelow.trans hbelow', hclosed'⟩

theorem chain_grows {result : Option Ty} {s s' : State} {c : Core.Chain} (hs : s.Closed) :
    ∀ ch : Surface.Chain, chain result ch s = .ok c s' →
      s.entities.Below s'.entities ∧ s'.Closed
  | .finish, h => by
      cases acceptsChain_of_chain h
      exact ⟨.refl _, hs⟩
  | .otherwise body, h => by
      cases acceptsChain_of_chain h with
      | otherwise hbody => exact block_grows hs body hbody
  | .also test body rest, h => by
      cases acceptsChain_of_chain h with
      | also _ _ hbody hrest =>
          obtain ⟨hbelow, hclosed⟩ := block_grows hs body hbody
          obtain ⟨hbelow', hclosed'⟩ := chain_grows hclosed rest hrest
          exact ⟨hbelow.trans hbelow', hclosed'⟩

end

/-! ## The states that analysis passes -/

/-- A part of a program that is analyzed as a whole. -/
inductive Part
  | stmt (st : Surface.Stmt)
  | block (body : List Surface.Stmt)
  | chain (ch : Surface.Chain)

/-- On its way through a part, whether it is accepted in the end or not, analysis that starts in
the first state comes to the second one, in which it is about to analyze a part of that part. -/
inductive Passes : Option Ty → Part → State → State → Prop
  | here {result part s} : Passes result part s s
  | first {result st rest s t} (h : Passes result (.stmt st) s t) :
      Passes result (.block (st :: rest)) s t
  | rest {result st rest c s s₁ t} (hfirst : stmt result st s = .ok c s₁)
      (h : Passes result (.block rest) s₁ t) : Passes result (.block (st :: rest)) s t
  | function {result name params type body s s₁ s₂ t}
      (hentities₁ : s₁.entities = withFunction s.entities name params type)
      (hscope₁ : s₁.scope =
        (s.scope.declare name.text (.function s.entities.nextFunction)).enter)
      (hparams : declareParams params (paramIds s.entities params) s₁ = .ok () s₂)
      (h : Passes (some type.type) (.block body) s₂ t) :
      Passes result (.stmt (.function name params type body)) s t
  | condBody {result test body rest span s t} (h : Passes result (.block body) s t) :
      Passes result (.stmt (.cond test body rest span)) s t
  | condRest {result test body rest span b s s₁ t} (hbody : block result body s = .ok b s₁)
      (h : Passes result (.chain rest) s₁ t) :
      Passes result (.stmt (.cond test body rest span)) s t
  | loop {result test body span s s₁ t} (hentities₁ : s₁.entities = s.entities)
      (hscope₁ : s₁.scope = s.scope.enter) (h : Passes result (.block body) s₁ t) :
      Passes result (.stmt (.loop test body span)) s t
  | each {result iterator collection body span v s s₁ t}
      (hentities₁ : s₁.entities = s.entities.addVariable v)
      (hscope₁ : s₁.scope =
        s.scope.enter.declare iterator.text (.variable s.entities.nextVariable))
      (h : Passes result (.block body) s₁ t) :
      Passes result (.stmt (.each iterator collection body span)) s t
  | otherwise {result body s t} (h : Passes result (.block body) s t) :
      Passes result (.chain (.otherwise body)) s t
  | alsoBody {result test body rest s t} (h : Passes result (.block body) s t) :
      Passes result (.chain (.also test body rest)) s t
  | alsoRest {result test body rest b s s₁ t} (hbody : block result body s = .ok b s₁)
      (h : Passes result (.chain rest) s₁ t) : Passes result (.chain (.also test body rest)) s t

/-- Wherever analysis comes from a closed state, no lookup in the table misses. -/
theorem State.Closed.of_passes {result : Option Ty} {part : Part} {s t : State} (hs : s.Closed)
    (h : Passes result part s t) : t.Closed := by
  induction h with
  | here => exact hs
  | first _ ih => exact ih hs
  | rest hfirst _ ih => exact ih (stmt_grows hs _ hfirst).2
  | function hentities₁ hscope₁ hparams _ ih =>
      exact ih (hs.functionBody hentities₁ hscope₁ hparams)
  | condBody _ ih => exact ih hs
  | condRest hbody _ ih => exact ih (block_grows hs _ hbody).2
  | loop hentities₁ hscope₁ _ ih => exact ih (hs.enter hentities₁ hscope₁)
  | each hentities₁ hscope₁ _ ih => exact ih (hs.eachBody hentities₁ hscope₁)
  | otherwise _ ih => exact ih hs
  | alsoBody _ ih => exact ih hs
  | alsoRest hbody _ ih => exact ih (block_grows hs _ hbody).2

end Analysis
end Barista
